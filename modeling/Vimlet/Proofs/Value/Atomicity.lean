import Vimlet.Proofs.Session.Ending
import Vimlet.Proofs.Value.Mutation

/-!
# Operations on containers are atomic

An operation that changes a container checks all that it needs before it writes. So it stops with
the heap as it was, or changes one container. Its arguments may be that container itself.
-/

namespace Vimlet

open Run List Mem ContainerFunction Table

theorem Handle.same_value_iff (handle : Handle) {value} :
    value.same handle.value = true ↔ value = handle.value := by
  cases handle <;> cases value <;> simp [Handle.value, Value.same]

theorem Mem.ofExcept_ok {α : Type} {result : Except Fault α} {value} (read : result = .ok value)
    (heap : Heap) : ofExcept result heap = .ok value heap := by
  rw [read]
  rfl

theorem Mem.ofExcept_error {α : Type} {result : Except Fault α} {cause}
    (read : result = .error cause) (heap : Heap) :
    ofExcept result heap = .error (.fault cause) heap := by
  rw [read]
  rfl

namespace Mutation

variable {heap : Heap} {target : Value}
variable {cell size cut first : Nat} {key place item last : Value} {index : Int}

theorem insert_atomic (keyed : heap.Keyed) (valid : target.In heap) (item index : Value) :
    (insert target item index).Atomic heap := by
  cases target with
  | list cell =>
    by_cases own : item = .list cell
    · refine .refused (.fault (.cyclicReference .list)) ?_ fun accepted => accepted.1 own
      exact congrFun (if_pos ((Handle.list cell).same_value_iff.mpr own)) heap
    have checked : (insert (.list cell) item index).perform heap = _ :=
      congrFun (if_neg (mt (Handle.list cell).same_value_iff.mp own)) heap
    cases read : index.toInt with
    | error cause =>
      rw [bind_error (ofExcept_error read heap)] at checked
      refine .refused (.fault cause) checked ?_
      rintro ⟨_, place, found, _⟩
      cases read.symm.trans found
    | ok place =>
      rw [bind_ok (ofExcept_ok read heap)] at checked
      by_cases fits : minWord ≤ place ∧ place ≤ maxWord
      · have inside : ¬(place < minWord || maxWord < place) = true := by grind
        have sets := Heap.SetsList.growList (valid (.list cell) rfl)
          ((heap.list cell).take (cutPosition (heap.list cell).length place) ++
            item :: (heap.list cell).drop (cutPosition (heap.list cell).length place))
        refine .performed (.list cell) rfl (.list cell) _
          (checked.trans (congrFun (if_neg inside) heap)) ⟨own, place, read, fits⟩ sets.others
          ⟨rfl, place, read, ?_⟩ (sets.keyed keyed)
        rw [sets.elements, append_cons]
        exact spliced_insertion _ _ (cutPosition_le _ _)
      · have outside : (place < minWord || maxWord < place) = true := by grind
        refine .refused .internal (checked.trans (congrFun (if_pos outside) heap)) ?_
        rintro ⟨_, _, found, fits_found⟩
        cases read.symm.trans found
        exact fits fits_found
  | _ => exact .refused _ rfl id

theorem append_atomic (keyed : heap.Keyed) (valid : target.In heap) (item : Value) :
    (append target item).Atomic heap := by
  cases target with
  | list cell =>
    by_cases own : item = .list cell
    · refine .refused (.fault (.cyclicReference .list)) ?_ fun accepted => accepted own
      exact congrFun (if_pos ((Handle.list cell).same_value_iff.mpr own)) heap
    have sets := Heap.SetsList.pushItem (valid (.list cell) rfl) item
    exact .performed (.list cell) rfl (.list cell) _
      (congrFun (if_neg (mt (Handle.list cell).same_value_iff.mp own)) heap) own sets.others
      ⟨rfl, sets.elements⟩ (sets.keyed keyed)
  | _ => exact .refused _ rfl id

/-- Puts items into a List unless there are none. -/
def putAt (cell : Nat) (added : List Value) (cut : Nat) : Mem Value := do
  let items := (← get).list cell
  if !added.isEmpty then growList cell (items.take cut ++ added ++ items.drop cut)
  return .list cell

theorem putAt_sets (valid : cell < heap.lists.size) (added : List Value) (cut : Nat) :
    ∃ after, putAt cell added cut heap = .ok (.list cell) after ∧
      heap.SetsList cell ((heap.list cell).take cut ++ added ++ (heap.list cell).drop cut)
        after := by
  cases added with
  | nil =>
    refine ⟨heap, rfl, ?_⟩
    rw [append_nil, take_append_drop]
    exact .refl heap cell
  | cons first rest => exact ⟨_, rfl, .growList valid _⟩

/-- Reads the position at which a List is to be extended. -/
def readCut (size : Nat) (place : Value) : Mem Nat :=
  match place with
  | .nil => pure size
  | place => cutPosition size <$> Mem.ofExcept place.toInt

theorem readCut_cases (size : Nat) (place : Value) (heap : Heap) :
    (∃ cut, Cuts size place cut ∧ readCut size place heap = .ok cut heap) ∨
      ∃ cause, place.toInt = .error cause ∧
        readCut size place heap = .error (.fault cause) heap := by
  unfold readCut
  split
  · exact .inl ⟨size, .inl ⟨rfl, rfl⟩, rfl⟩
  · rename_i nonempty
    cases read : place.toInt with
    | ok index => exact .inl ⟨_, .inr ⟨nonempty, index, read, rfl⟩, rfl⟩
    | error cause => exact .inr ⟨cause, rfl, rfl⟩

theorem Cuts.le (cuts : Cuts size place cut) : cut ≤ size := by
  obtain ⟨_, whole⟩ | ⟨_, index, _, rfl⟩ := cuts
  · exact whole.le
  · exact cutPosition_le size index

theorem Cuts.exists_toInt (cuts : Cuts size place cut) : ∃ index, place.toInt = .ok index := by
  obtain ⟨rfl, _⟩ | ⟨_, index, read, _⟩ := cuts
  · exact ⟨0, rfl⟩
  · exact ⟨index, read⟩

theorem any_same_iff (handle : Handle) {values : List Value} :
    values.any (·.same handle.value) = true ↔ handle.value ∈ values := by
  simp only [any_eq_true, handle.same_value_iff]
  exact ⟨fun ⟨_, mem, same⟩ => same ▸ mem, fun mem => ⟨_, mem, rfl⟩⟩

/-- A List is not extended by elements among which it is itself. -/
theorem extend_own_list {source} (own : .list cell ∈ heap.list source) (place : Value) :
    Mem.extend (.list cell) (.list source) place heap =
      .error (.fault (.cyclicReference .list)) heap :=
  congrFun (if_pos ((any_same_iff (.list cell)).mpr own)) heap

theorem extend_list_atomic (keyed : heap.Keyed) (valid : cell < heap.lists.size) (source : Nat)
    (place : Value) : (extend (.list cell) (.list source) place).Atomic heap := by
  by_cases own : .list cell ∈ heap.list source
  · exact .refused _ (extend_own_list own place) fun accepted => accepted.1 own
  have checked : (extend (.list cell) (.list source) place).perform heap =
      (readCut (heap.list cell).length place >>= putAt cell (heap.list source)) heap := by
    refine (congrFun (if_neg (mt (any_same_iff (.list cell)).mp own)) heap).trans ?_
    cases place <;> rfl
  obtain ⟨cut, cuts, read⟩ | ⟨cause, not_read, failed⟩ := readCut_cases _ place heap
  · obtain ⟨after, put, sets⟩ := putAt_sets valid (heap.list source) cut
    refine .performed (.list cell) rfl (.list cell) after ?_ ⟨own, cuts.exists_toInt⟩ sets.others
      ⟨rfl, cut, cuts, ?_⟩ (sets.keyed keyed)
    · rw [checked, bind_ok read, put]
    · rw [sets.elements]
      exact spliced_insertion _ _ cuts.le
  · refine .refused (.fault cause) (checked.trans (bind_error failed)) ?_
    rintro ⟨_, index, found⟩
    cases not_read.symm.trans found

/-- Merging entries lays one table over another. -/
theorem mergeEntries_eq_overlay {entries} (entries_distinct : (entries.map (·.1)).Nodup) {table}
    (distinct : table.keys.Nodup) (keep : Bool) :
    mergeEntries keep entries table = table.overlay keep ⟨entries⟩ ∧
      (mergeEntries keep entries table).keys.Nodup := by
  induction entries generalizing table with
  | nil => exact ⟨(overlay_nil keep table).symm, distinct⟩
  | cons entry rest ih =>
    obtain ⟨fresh, rest_distinct⟩ := nodup_cons.mp entries_distinct
    rw [overlay_cons distinct fresh]
    refine ih rest_distinct ?_
    dsimp only
    split
    · exact distinct
    · exact nodup_keys_insert distinct _ _

/-- An Object is not extended by values among which it is itself. -/
theorem extend_own_object {source} (own : .object cell ∈ (heap.object source).values)
    (place : Value) :
    Mem.extend (.object cell) (.object source) place heap =
      .error (.fault (.cyclicReference .object)) heap :=
  congrFun (if_pos ((any_same_iff (.object cell)).mpr own)) heap

theorem extend_object_atomic (keyed : heap.Keyed) (valid : cell < heap.objects.size) (source : Nat)
    (place : Value) : (extend (.object cell) (.object source) place).Atomic heap := by
  by_cases own : .object cell ∈ (heap.object source).values
  · exact .refused _ (extend_own_object own place) fun accepted => accepted own
  obtain ⟨merged, distinct⟩ :=
    mergeEntries_eq_overlay (keyed source) (keyed cell) (heap.text place == "keep")
  rw [merged] at distinct
  have checked : (extend (.object cell) (.object source) place).perform heap =
      .ok (.object cell) (heap.setObject cell
        ((heap.object cell).overlay (heap.text place == "keep") (heap.object source))) := by
    refine (congrFun (if_neg (mt (any_same_iff (.object cell)).mp own)) heap).trans ?_
    rw [← merged]
    cases place <;> rfl
  exact .performed (.object cell) rfl (.object cell) _ checked own
    (Heap.Touches.setObject heap cell _).changesOnly ⟨rfl, heap.object_setObject valid _⟩
    (keyed.setObject distinct)

theorem extend_atomic (keyed : heap.Keyed) (valid : target.In heap) (other place : Value) :
    (extend target other place).Atomic heap := by
  cases target with
  | list cell =>
    cases other with
    | list source => exact extend_list_atomic keyed (valid (.list cell) rfl) source place
    | _ => exact .refused _ rfl id
  | object cell =>
    cases other with
    | object source => exact extend_object_atomic keyed (valid (.object cell) rfl) source place
    | _ => exact .refused _ rfl id
  | _ => exact .refused _ rfl id

/-- A value that is to be an index of a list stands for no integer, for one that is out of range,
or for a position. -/
theorem index_cases (size : Nat) (key : Value) :
    (∃ cause, key.toInt = .error cause ∧ ¬IsIndex size key) ∨
    (∃ index, key.toInt = .ok index ∧ position? size index = none ∧ ¬IsIndex size key) ∨
    ∃ index position, key.toInt = .ok index ∧ position? size index = some position ∧
      (position : Int) = fromEnd size index ∧ position < size ∧ IsIndex size key := by
  cases read : key.toInt with
  | error cause =>
    refine .inl ⟨cause, rfl, ?_⟩
    rintro ⟨index, found, _⟩
    cases read.symm.trans found
  | ok index =>
    by_cases inside : -(size : Int) ≤ index ∧ index < size
    · obtain ⟨low, high⟩ := fromEnd_range inside
      refine .inr (.inr ⟨index, _, rfl, by rw [position?_eq, if_pos inside], ?_, ?_,
        index, read, inside⟩) <;> omega
    · refine .inr (.inl ⟨index, rfl, by rw [position?_eq, if_neg inside], ?_⟩)
      rintro ⟨other, found, inside_other⟩
      cases read.symm.trans found
      exact inside inside_other

theorem length_list (heap : Heap) (cell : Nat) :
    (heap.list cell).length = heap.listLength cell := rfl

theorem setItem_list_atomic (keyed : heap.Keyed) (valid : cell < heap.lists.size) (key : Value)
    (other : item ≠ .list cell) : (setItem (.list cell) key item).Atomic heap := by
  have different := mt (Handle.list cell).same_value_iff.mp other
  have checked : Mem.setItem (.list cell) key item heap = _ := congrFun (if_neg different) heap
  dsimp only at checked
  obtain ⟨cause, read, not_index⟩ | ⟨index, read, missing, not_index⟩ |
    ⟨index, position, read, found, position_eq, within, is_index⟩ :=
      index_cases (heap.list cell).length key
  · rw [bind_error (ofExcept_error read heap)] at checked
    exact .refused (.fault cause) (bind_error checked) fun accepted => not_index accepted.2
  · rw [bind_ok (ofExcept_ok read heap), get_bind, ← length_list, missing] at checked
    exact .refused _ (bind_error checked) fun accepted => not_index accepted.2
  · rw [bind_ok (ofExcept_ok read heap), get_bind, ← length_list, found] at checked
    have sets := Heap.SetsList.setItem valid position item
    refine .performed (.list cell) rfl .nil _ (bind_ok checked) ⟨other, is_index⟩ sets.others
      ⟨index, (heap.list cell).get ⟨position, within⟩, read, ?_⟩ (sets.keyed keyed)
    rw [← position_eq, sets.elements, set_eq_take_append_cons_drop, if_pos within, append_cons]
    exact spliced_one _ _ within

theorem setItem_object_atomic (keyed : heap.Keyed) (valid : cell < heap.objects.size) (key : Value)
    (other : item ≠ .object cell) : (setItem (.object cell) key item).Atomic heap := by
  have different := mt (Handle.object cell).same_value_iff.mp other
  have checked : Mem.setItem (.object cell) key item heap = _ := congrFun (if_neg different) heap
  refine .performed (.object cell) rfl .nil _ (bind_ok checked) other
    (Heap.Touches.setObject heap cell _).changesOnly ?_
    (keyed.setObject (nodup_keys_insert (keyed cell) _ _))
  exact (heap.object_setObject valid _).trans (overlay_singleton (keyed cell) _ item).symm

theorem setItem_atomic (keyed : heap.Keyed) (valid : target.In heap) (key item : Value) :
    (setItem target key item).Atomic heap := by
  by_cases own : item.same target = true
  · refine .refused (.fault (.cyclicReference target.kind))
      (bind_error (congrFun (if_pos own) heap)) ?_
    cases target with
    | list cell => exact fun accepted => accepted.1 ((Handle.list cell).same_value_iff.mp own)
    | object cell => exact fun accepted => accepted ((Handle.object cell).same_value_iff.mp own)
    | _ => exact id
  cases target with
  | list cell =>
    refine setItem_list_atomic keyed (valid (.list cell) rfl) key ?_
    exact fun same => own ((Handle.list cell).same_value_iff.mpr same)
  | object cell =>
    refine setItem_object_atomic keyed (valid (.object cell) rfl) key ?_
    exact fun same => own ((Handle.object cell).same_value_iff.mpr same)
  | _ => exact .refused _ (bind_error (congrFun (if_neg own) heap)) id

theorem removeItem_not_read {cause} (read : key.toInt = .error cause) (last : Value) :
    removeItem (.list cell) key last heap = .error (.fault cause) heap := by
  simp only [removeItem, listCell, pure_bind]
  rw [get_bind, bind_error (ofExcept_error read heap)]

theorem removeItem_missing (read : key.toInt = .ok index)
    (missing : position? (heap.list cell).length index = none) (last : Value) :
    removeItem (.list cell) key last heap =
      .error (.fault (.expected (.indexInRange index))) heap := by
  simp only [removeItem, listCell, pure_bind]
  rw [get_bind, bind_ok (ofExcept_ok read heap), missing]
  rfl

theorem removeItem_one {position} (read : key.toInt = .ok index)
    (found : position? (heap.list cell).length index = some position) :
    removeItem (.list cell) key .nil heap =
      .ok ((heap.list cell).getD position .nil)
        (heap.setList cell ((heap.list cell).eraseIdx position)) := by
  simp only [removeItem, listCell, pure_bind]
  rw [get_bind, bind_ok (ofExcept_ok read heap), found]
  rfl

theorem removeItem_last_not_read {cause} (read : key.toInt = .ok index)
    (found : position? (heap.list cell).length index = some first)
    (last_read : last.toInt = .error cause) :
    removeItem (.list cell) key last heap = .error (.fault cause) heap := by
  simp only [removeItem, listCell, pure_bind]
  rw [get_bind, bind_ok (ofExcept_ok read heap), found]
  dsimp only
  split
  · cases last_read
  · rw [bind_error (ofExcept_error last_read heap)]

theorem removeItem_range (valid : cell < heap.lists.size) {stop} (read : key.toInt = .ok index)
    (found : position? (heap.list cell).length index = some first) (given : last ≠ .nil)
    (last_read : last.toInt = .ok stop) {count}
    (count_eq : count = (stop.emod (heap.list cell).length).toNat + 1 - first) :
    ∃ after, removeItem (.list cell) key last heap = .ok (.list heap.lists.size) after ∧
      heap.SetsList cell ((heap.list cell).take first ++ (heap.list cell).drop (first + count))
        after ∧
      after.list heap.lists.size = ((heap.list cell).drop first).take count := by
  generalize final_eq : (stop.emod (heap.list cell).length).toNat = final at count_eq
  have removed_eq : ((heap.list cell).take (final + 1)).drop first =
      ((heap.list cell).drop first).take count := by
    rw [drop_take, count_eq]
  have kept_eq : (if first ≤ final then
      (heap.list cell).take first ++ (heap.list cell).drop (final + 1) else heap.list cell) =
        (heap.list cell).take first ++ (heap.list cell).drop (first + count) := by
    split
    · rw [show first + count = final + 1 by omega]
    · rw [show first + count = first by omega, take_append_drop]
  refine ⟨_, ?_, Heap.SetsList.newList_setList valid _ _ rfl rfl⟩
  simp only [removeItem, listCell, pure_bind]
  rw [get_bind, bind_ok (ofExcept_ok read heap), found]
  dsimp only
  rw [bind_ok (ofExcept_ok last_read heap), final_eq, removed_eq, kept_eq]
  rfl

theorem remove_list_atomic (keyed : heap.Keyed) (valid : cell < heap.lists.size) (key last : Value) :
    (remove (.list cell) key last).Atomic heap := by
  obtain ⟨cause, read, not_index⟩ | ⟨index, read, missing, not_index⟩ |
    ⟨index, first, read, found, first_eq, within, is_index⟩ :=
      index_cases (heap.list cell).length key
  · exact .refused _ (removeItem_not_read read last) fun accepted => not_index accepted.1
  · exact .refused _ (removeItem_missing read missing last) fun accepted => not_index accepted.1
  cases last_read : last.toInt with
  | error cause =>
    refine .refused _ (removeItem_last_not_read read found last_read) ?_
    rintro ⟨_, stop, stop_read⟩
    cases last_read.symm.trans stop_read
  | ok stop =>
    by_cases absent : last = .nil
    · subst absent
      have sets := Heap.SetsList.setList valid ((heap.list cell).eraseIdx first)
      refine .performed (.list cell) rfl _ _ (removeItem_one read found)
        ⟨is_index, stop, last_read⟩ sets.others
        ⟨index, _, read, ?_, .inl ⟨rfl, rfl⟩⟩ (sets.keyed keyed)
      have removed_eq :
          (heap.list cell).getD first .nil = (heap.list cell).get ⟨first, within⟩ := by
        simp [within]
      rw [← first_eq, sets.elements, eraseIdx_eq_take_drop_succ, removed_eq]
      simpa only [append_nil] using spliced_one _ [] within
    · obtain ⟨after, run, sets, made⟩ := removeItem_range valid read found absent last_read rfl
      refine .performed (.list cell) rfl _ after run ⟨is_index, stop, last_read⟩ sets.others
        ⟨index, _, read, ?_, .inr ⟨absent, rfl, made⟩⟩ (sets.keyed keyed)
      rw [← first_eq, sets.elements]
      have final_lt : stop.emod (heap.list cell).length < (heap.list cell).length :=
        Int.emod_lt_of_pos _ (by omega)
      have stretch := spliced_stretch (heap.list cell) [] first
        ((stop.emod (heap.list cell).length).toNat + 1 - first) (by omega)
      rwa [append_nil] at stretch

theorem remove_object_atomic (keyed : heap.Keyed) (valid : cell < heap.objects.size)
    (key last : Value) : (remove (.object cell) key last).Atomic heap := by
  cases found : (heap.object cell).get? (heap.text key) with
  | none =>
    refine .refused (.fault (.expected (.key (heap.text key)))) ?_ fun bound => ?_
    · simp only [perform, removeItem]
      rw [get_bind, found]
      rfl
    · have contained := Table.contains_iff.mpr bound
      rw [Table.contains, found] at contained
      cases contained
  | some value =>
    obtain ⟨front, back, split, erased⟩ := exists_erase_eq (keyed cell) found
    refine .performed (.object cell) rfl value
      (heap.setObject cell ((heap.object cell).erase (heap.text key))) ?_ ?_
      (Heap.Touches.setObject heap cell _).changesOnly ⟨front.length, front, back, rfl, ?_, ?_⟩
      (keyed.setObject (nodup_keys_erase (keyed cell) _))
    · simp only [perform, removeItem]
      rw [get_bind, found]
      rfl
    · exact Table.contains_iff.mp (by rw [Table.contains, found]; rfl)
    · rw [split, append_cons]
    · rw [heap.object_setObject valid, erased, append_nil]

theorem remove_atomic (keyed : heap.Keyed) (valid : target.In heap) (key last : Value) :
    (remove target key last).Atomic heap := by
  cases target with
  | list cell => exact remove_list_atomic keyed (valid (.list cell) rfl) key last
  | object cell => exact remove_object_atomic keyed (valid (.object cell) rfl) key last
  | _ => exact .refused _ rfl id

theorem atomic (keyed : heap.Keyed) (mutation : Mutation) (valid : mutation.target.In heap) :
    mutation.Atomic heap := by
  cases mutation with
  | insert target item index => exact insert_atomic keyed valid item index
  | append target item => exact append_atomic keyed valid item
  | extend target other place => exact extend_atomic keyed valid other place
  | setItem target key item => exact setItem_atomic keyed valid key item
  | remove target key last => exact remove_atomic keyed valid key last

theorem extend_self_list (keyed : heap.Keyed) (valid : cell < heap.lists.size)
    (outside : .list cell ∉ heap.list cell) :
    ∃ after, Mem.extend (.list cell) (.list cell) .nil heap = .ok (.list cell) after ∧
      heap.ChangesOnly (.list cell) after ∧
      after.list cell = heap.list cell ++ heap.list cell := by
  cases extend_list_atomic keyed valid cell .nil with
  | refused stop ended not_accepted => exact absurd ⟨outside, 0, rfl⟩ not_accepted
  | performed handle is_target result after ended accepted others effect keyed_after =>
    obtain ⟨rfl, cut, ⟨_, rfl⟩ | ⟨given, _⟩, spliced⟩ := effect
    · obtain rfl : .list cell = handle := Handle.value_injective is_target
      exact ⟨after, ended, others, spliced.eq_append⟩
    · exact absurd rfl given

theorem extend_self_object (keyed : heap.Keyed) (valid : cell < heap.objects.size)
    (outside : .object cell ∉ (heap.object cell).values) :
    ∃ after, Mem.extend (.object cell) (.object cell) .nil heap = .ok (.object cell) after ∧
      heap.ChangesOnly (.object cell) after ∧ after.object cell = heap.object cell := by
  cases extend_object_atomic keyed valid cell .nil with
  | refused stop ended not_accepted => exact absurd outside not_accepted
  | performed handle is_target result after ended accepted others effect keyed_after =>
    obtain ⟨rfl, merged⟩ := effect
    obtain rfl : .object cell = handle := Handle.value_injective is_target
    exact ⟨after, ended, others, merged.trans (overlay_self (keyed cell))⟩

/-- Operations that change containers are atomic. A List extended by itself has its elements twice,
and an Object stays as it is; a container that is in itself is refused, and the heap stays. -/
theorem atomic_and_extend_self (keyed : heap.Keyed) :
    (∀ mutation : Mutation, mutation.target.In heap → mutation.Atomic heap) ∧
    (∀ cell < heap.lists.size, .list cell ∉ heap.list cell →
      ∃ after, apply .extend [.list cell, .list cell] heap =
          .ok (.list cell) after ∧
        heap.ChangesOnly (.list cell) after ∧
        after.list cell = heap.list cell ++ heap.list cell) ∧
    (∀ cell < heap.objects.size, .object cell ∉ (heap.object cell).values →
      ∃ after, apply .extend [.object cell, .object cell] heap =
          .ok (.object cell) after ∧
        heap.ChangesOnly (.object cell) after ∧ after.object cell = heap.object cell) ∧
    (∀ cell, .list cell ∈ heap.list cell →
      apply .extend [.list cell, .list cell] heap =
        .error (.fault (.cyclicReference .list)) heap) ∧
    ∀ cell, .object cell ∈ (heap.object cell).values →
      apply .extend [.object cell, .object cell] heap =
        .error (.fault (.cyclicReference .object)) heap :=
  ⟨atomic keyed, fun _ => extend_self_list keyed, fun _ => extend_self_object keyed,
    fun _ own => extend_own_list own .nil, fun _ own => extend_own_object own .nil⟩

/-- Two Lists and an Object that hold each other. -/
def tangled : Heap where
  lists := #[{ items := #[.integer 1, .list 1] }, { items := #[.object 0] }]
  objects := #[⟨[("a", .list 0), ("b", .nil)]⟩]

/-- A List can be extended by itself in its middle, though it lies inside its own elements. -/
theorem atomic_and_extend_self_tangled :
    tangled.Keyed ∧ Value.In tangled (.list 0) ∧ .list 0 ∉ tangled.list 0 ∧
      (extend (.list 0) (.list 0) (.integer 1)).Atomic tangled ∧
      ∃ after, apply .extend [.list 0, .list 0] tangled = .ok (.list 0) after ∧
        after.list 0 = [.integer 1, .list 1, .integer 1, .list 1] ∧
        after.object 0 = tangled.object 0 := by
  have keyed : tangled.Keyed := by
    rintro (_ | cell)
    · decide
    · exact nodup_nil
  have valid : Value.In tangled (.list 0) := by
    rintro _ ⟨⟩
    exact Nat.two_pos
  have outside : .list 0 ∉ tangled.list 0 := by simp [tangled, Heap.list, Heap.listCell]
  obtain ⟨all, lists, _⟩ := atomic_and_extend_self keyed
  obtain ⟨after, extended, others, doubled⟩ := lists 0 (by decide) outside
  refine ⟨keyed, valid, outside, all _ valid, after, extended, doubled, ?_⟩
  rw [Heap.object, others.objects 0 (by decide) (by simp)]
  rfl

end Mutation

end Vimlet
