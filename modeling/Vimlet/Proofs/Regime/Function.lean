import Vimlet.Proofs.Regime.Heap
import Vimlet.Proofs.Value.Reach

/-!
# Regimes of builtin functions

The functions on numbers, texts and containers keep to a regime. A deep copy does not put a clone
into itself, since no model lies in itself and different models have different clones.
-/

namespace Vimlet

open List

variable {σ α β : Type}
variable {base : Heap} {clones : Clones} {value : Value} {act : Mem α} {args : List Value}

/-! ### Results that are no containers -/

/-- A result, if there is one, is no container. -/
def GivesScalar (result : Except Fault Value) : Prop :=
  ∀ value, result = .ok value → value.handle? = none

theorem GivesScalar.ok (scalar : value.handle? = none) : GivesScalar (.ok value) := by
  rintro _ ⟨⟩
  exact scalar

theorem GivesScalar.error (cause : Fault) : GivesScalar (.error cause) := nofun

theorem GivesScalar.bind {result} {next : α → Except Fault Value}
    (each : ∀ value, GivesScalar (next value)) : GivesScalar (result >>= next) := by
  cases result with
  | ok value => exact each value
  | error cause => exact .error cause

theorem MathFunction.apply_scalar (f : MathFunction) (args : List Value) :
    GivesScalar (f.apply args) := by
  unfold MathFunction.apply
  split
  · rename_i x
    cases f with
    | abs => cases x <;> first | exact .ok rfl | exact .bind fun _ => .ok rfl
    | _ => first | exact .ok rfl | exact .bind fun _ => .ok rfl
  · cases f <;> first | exact .ok rfl | exact .bind fun _ => .bind fun _ => .ok rfl
  · exact .ok rfl

theorem Heap.Writes.keeps {before after handle} (writes : before.Writes handle after)
    (keeps : base.Keeps before) (new : ¬handle.In base) : base.Keeps after := by
  intro other valid
  obtain ⟨valid_before, same⟩ := keeps other valid
  have different : other ≠ handle := fun equal => new (equal ▸ valid)
  exact ⟨(writes.handles other).mpr valid_before, (writes.others other different).trans same⟩

namespace Regime.Kept

variable {regime : Regime σ} {host : Host σ} {probe probe' : Probe σ}
  (kept : regime.Kept host probe probe') {session : Session σ} {post : Heap → α → Prop}
include kept

/-! ### Deep copies -/

omit kept in
/-- Something that is known about the heap alone. -/
theorem heap_also {extra : Heap → α → Prop} (handles : regime.Handles session post act)
    (known : ∀ value heap, act session.heap = .ok value heap → extra heap value) :
    regime.Handles session (fun heap value => post heap value ∧ extra heap value) act := by
  intro held
  obtain ⟨same, ends⟩ := handles held
  refine ⟨same, ?_⟩
  unfold Run.onHeap at ends ⊢
  dsimp only at ends ⊢
  cases ended : act session.heap with
  | ok value heap =>
    rw [ended] at ends
    exact ⟨ends.1, ends.2, known value heap ended⟩
  | error stop heap =>
    rw [ended] at ends
    exact ends

theorem newLike (handle : Handle) : regime.Handles session regime.owns (Mem.newLike handle) := by
  cases handle with
  | list cell => exact kept.newList .nil
  | object cell => exact kept.newObject nofun

theorem newLikes (handles : List Handle) :
    regime.Handles session (fun heap containers => regime.Owned heap (containers.map (·.2)))
      (Mem.newLikes handles) := by
  induction handles generalizing session with
  | nil => exact kept.heap_pure .nil
  | cons handle rest ih =>
    rw [Mem.newLikes_cons]
    refine kept.heap_bind (kept.newLike handle) fun clone after _ owned => ?_
    exact kept.heap_bind ih fun more later leads more_owned =>
      kept.heap_pure (.cons (leads.owns owned) more_owned)

omit kept in
theorem redirect_cases (clones : Clones) (value : Value) :
    (value.redirect clones).handle? = none ∨
      (∃ handle : Handle, value = handle.value ∧
        (handle, value.redirect clones) ∈ clones.containers) ∨
      value.redirect clones = value := by
  have container (handle : Handle) :
      (handle, (clones.containers.lookup handle).getD handle.value) ∈ clones.containers ∨
        (clones.containers.lookup handle).getD handle.value = handle.value := by
    cases found : clones.containers.lookup handle with
    | none => exact .inr rfl
    | some clone =>
      obtain ⟨before, after, same, _⟩ := lookup_eq_some_iff.mp found
      exact .inl (by simp [same])
  cases value with
  | list cell => exact .inr ((container (.list cell)).imp_left fun mem => ⟨_, rfl, mem⟩)
  | object cell => exact .inr ((container (.object cell)).imp_left fun mem => ⟨_, rfl, mem⟩)
  | _ => exact .inl rfl

theorem redirect {heap} (owned : regime.owns heap value)
    (clones_owned : regime.Owned heap (clones.containers.map (·.2))) :
    regime.owns heap (value.redirect clones) := by
  obtain scalar | ⟨handle, _, mem⟩ | same := redirect_cases clones value
  · exact kept.owns_scalar scalar
  · exact clones_owned _ (mem_map_of_mem mem)
  · rwa [same]

section Clones

variable (fresh : Clones.Fresh base clones.containers)
  (models : regime.guarded → base.Closed ∧ ∀ pair ∈ clones.containers, pair.1.In base)
  (keeps : base.Keeps session.heap)
  (clones_owned : regime.Owned session.heap (clones.containers.map (·.2)))
include fresh models keeps clones_owned

/-- What a clone gets does not have the clone in it. -/
theorem storable_redirected {model clone} (mem : (model, clone.value) ∈ clones.containers)
    (held : regime.holds session) :
    regime.Storable session.heap clone
      ((session.heap.contents model).map (·.redirect clones)) := by
  intro value redirected
  obtain ⟨held_value, held_mem, rfl⟩ := mem_map.mp redirected
  refine ⟨kept.redirect (kept.owns_contents model held _ held_mem) clones_owned, ?_⟩
  intro guarded same
  obtain ⟨closed, valid⟩ := models guarded
  obtain scalar | ⟨handle, rfl, listed⟩ | unchanged := redirect_cases clones held_value
  · rw [same] at scalar
    cases clone <;> cases scalar
  · -- then the model lies in itself
    rw [same] at listed
    obtain rfl : handle = model :=
      congrArg Prod.fst (inj_on_of_nodup_map fresh.distinct listed mem rfl)
    exact kept.fits_contents held held_mem guarded rfl
  · -- then the clone is not new
    obtain ⟨other, is_other, new⟩ := fresh.new _ mem
    obtain rfl : clone = other := Handle.value_injective is_other
    rw [(keeps model (valid _ mem)).2] at held_mem
    have old := closed model held_value held_mem
    rw [unchanged.symm.trans same] at old
    exact new (Handle.value_in.mp old)

theorem fillClone {pair} (mem : pair ∈ clones.containers) :
    regime.Handles session (fun heap _ => base.Keeps heap) (Mem.fillClone clones pair) := by
  obtain ⟨clone, is_clone, new⟩ := fresh.new _ mem
  obtain ⟨model, _⟩ := pair
  obtain rfl : _ = clone.value := is_clone
  unfold Mem.fillClone
  split
  · rename_i source cell same
    obtain ⟨rfl, is_list⟩ := Prod.mk.inj same
    obtain rfl : clone = .list cell := Handle.value_injective is_list
    refine heap_inspect fun held => ?_
    have storable := kept.storable_redirected fresh models keeps clones_owned mem held
    refine mono (fun _ _ known => known.2) (heap_also (kept.setList storable) fun _ heap set => ?_)
    cases set
    exact (Heap.Writes.modifyList session.heap cell _).keeps keeps new
  · rename_i source cell same
    obtain ⟨rfl, is_object⟩ := Prod.mk.inj same
    obtain rfl : clone = .object cell := Handle.value_injective is_object
    refine heap_inspect fun held => ?_
    have storable := kept.storable_redirected fresh models keeps clones_owned mem held
    refine mono (fun _ _ known => known.2) (heap_also (kept.setObject ?_) fun _ heap set => ?_)
    · rw [Heap.contents, Table.values, map_map] at storable
      rw [Table.values, map_map]
      exact storable
    · cases set
      exact (Heap.Writes.setObject session.heap cell _).keeps keeps new
  · exact kept.heap_pure keeps

theorem fillClones {pairs} (subset : pairs ⊆ clones.containers) :
    regime.Handles session (fun _ _ => True) (pairs.forM (Mem.fillClone clones)) := by
  induction pairs generalizing session with
  | nil => exact kept.heap_pure trivial
  | cons pair rest ih =>
    obtain ⟨mem, rest_subset⟩ := cons_subset.mp subset
    refine kept.heap_bind (kept.fillClone fresh models keeps clones_owned mem)
      fun _ after leads keeps => ?_
    exact ih keeps (clones_owned.later leads) rest_subset

end Clones

theorem deepCopy (owned : regime.owns session.heap value) :
    regime.Handles session regime.owns (Mem.deepCopy value) := by
  refine heap_inspect fun held => ?_
  obtain ⟨containers, heap, made, grows, same, fresh⟩ :=
    Mem.newLikes_ok (session.heap.nodup_reach value) session.heap
  have models : regime.guarded →
      session.heap.Closed ∧ ∀ pair ∈ containers, pair.1.In session.heap := by
    intro guarded
    have closed : session.heap.Closed := fun handle value mem =>
      kept.owns_in guarded (kept.owns_contents handle held value mem)
    refine ⟨closed, fun pair mem => ?_⟩
    refine closed.reach_in (kept.owns_in guarded owned) _ ?_
    exact same ▸ mem_map_of_mem mem
  have likes : regime.Handles session
      (fun later found => regime.Owned later (found.map (·.2)) ∧
        found = containers ∧ session.heap.Keeps later)
      (Mem.newLikes (session.heap.reach value)) := by
    refine heap_also (kept.newLikes _) fun found later ended => ?_
    cases made.symm.trans ended
    exact ⟨rfl, grows.keeps⟩
  have serials {middle : Session σ} (keeps : session.heap.Keeps middle.heap) :
      regime.Handles middle (fun later _ => True ∧ session.heap.Keeps later) Mem.newSerials := by
    refine heap_also kept.newSerials fun offset later ended => ?_
    cases ended
    intro handle valid
    cases handle <;> exact keeps _ valid
  refine kept.heap_bind likes fun found middle leads ⟨clones_owned, is_made, keeps⟩ => ?_
  subst is_made
  refine kept.heap_bind (serials keeps) fun offset after leads' ⟨_, keeps⟩ => ?_
  refine kept.heap_bind (kept.fillClones fresh models keeps (clones_owned.later leads')
    (Subset.refl _)) fun _ last leads'' _ => kept.heap_pure ?_
  refine kept.redirect ?_ ((clones_owned.later leads').later leads'')
  exact leads''.owns (leads'.owns (leads.owns owned))

/-! ### Functions on containers -/

theorem copyOf (owned : regime.owns session.heap value) :
    regime.Handles session regime.owns (Mem.copyOf value) := by
  cases value with
  | list cell =>
    exact heap_inspect fun held => kept.newList (kept.owns_contents (.list cell) held)
  | object cell =>
    exact heap_inspect fun held => kept.newObject (kept.owns_contents (.object cell) held)
  | _ => exact kept.heap_pure owned

theorem uniqueFrom (before items : List Value) :
    regime.Handles session (fun _ result => result ⊆ before ++ items)
      (Mem.uniqueFrom before items) := by
  induction items generalizing before session with
  | nil => exact kept.heap_pure fun value mem => by simpa using mem
  | cons item rest ih =>
    have dropped : before ++ rest ⊆ before ++ item :: rest :=
      append_subset.mpr ⟨subset_append_left _ _,
        fun value mem => mem_append_right _ (mem_cons_of_mem _ mem)⟩
    have moved : item :: before ++ rest ⊆ before ++ item :: rest := by
      intro value mem
      simp only [cons_append, mem_cons, mem_append] at mem ⊢
      tauto
    unfold Mem.uniqueFrom
    split
    · refine kept.heap_bind (kept.equal _ _) fun same _ _ _ => ?_
      split
      · exact mono (fun _ _ subset => Subset.trans subset dropped) (ih _)
      · exact mono (fun _ _ subset => Subset.trans subset moved) (ih _)
    · exact mono (fun _ _ subset => Subset.trans subset moved) (ih _)

omit kept in
theorem progression_scalar (start step : Int) (count : Nat) :
    ∀ value ∈ Mem.progression start step count, value.handle? = none := by
  induction count generalizing start with
  | zero => exact nofun
  | succ count ih =>
    intro value mem
    obtain rfl | mem := mem_cons.mp mem
    · rfl
    · exact ih _ value mem

theorem rangeList (start stop step : Int) :
    regime.Handles session regime.owns (Mem.rangeList start stop step) := by
  rw [Mem.rangeList]
  generalize (if 0 < step then _ else _ : Int) = count
  by_cases large : Mem.maxRange < count
  · simp only [large, if_pos]
    exact kept.heap_stopped rfl
  · simp only [large, if_neg, not_false_iff]
    exact kept.newList (kept.owned_scalars (progression_scalar _ _ _))

theorem searchFrom (value : Value) (position : Int) (items : List Value) :
    regime.Handles session (fun _ _ => True) (Mem.searchFrom value position items) := by
  induction items generalizing position session with
  | nil => exact kept.heap_pure trivial
  | cons item rest ih =>
    refine kept.heap_bind (kept.equal _ _) fun same _ _ _ => ?_
    split
    · exact kept.heap_pure trivial
    · exact ih _

theorem search (items : List Value) (value : Value) (start : Int) :
    regime.Handles session (fun _ _ => True) (Mem.search items value start) := by
  unfold Mem.search
  split
  · exact kept.heap_stopped rfl
  · split <;> exact kept.searchFrom _ _ _

theorem countEqual (value : Value) (items : List Value) :
    regime.Handles session (fun _ _ => True) (Mem.countEqual value items) := by
  induction items generalizing session with
  | nil => exact kept.heap_pure trivial
  | cons item rest ih =>
    exact kept.heap_bind (kept.equal _ _) fun _ _ _ _ =>
      kept.heap_bind ih fun _ _ _ _ => kept.heap_pure trivial

theorem best (better : Int → Int → Bool) (values : List Value) :
    regime.Handles session regime.owns (do
      match ← Mem.ofExcept (values.mapM Value.toInt) with
      | [] => return Value.integer 0
      | first :: rest =>
        return .integer (rest.foldl (fun best n => if better n best then n else best) first)) := by
  refine kept.heap_bind (kept.heap_converted _) fun numbers _ _ _ => ?_
  split <;> exact kept.heap_pure (kept.owns_scalar rfl)

theorem extremum (better : Int → Int → Bool) (container : Value) :
    regime.Handles session regime.owns (Mem.extremum better container) := by
  refine heap_inspect fun held => ?_
  split
  · exact kept.best better _
  · exact kept.heap_bind (kept.itemsOf container) fun values _ _ _ => kept.best better values

omit kept in
theorem exists_of_mem_mapM {f : α → Option β} {items : List α} {results result}
    (found : items.mapM f = some results) (mem : result ∈ results) :
    ∃ item ∈ items, f item = some result := by
  induction items generalizing results with
  | nil =>
    rw [mapM_nil] at found
    cases found
    cases mem
  | cons item rest ih =>
    rw [mapM_cons] at found
    obtain ⟨first, is_first, is_rest⟩ := Option.bind_eq_some_iff.mp found
    obtain ⟨more, is_more, ⟨⟩⟩ := Option.bind_eq_some_iff.mp is_rest
    obtain rfl | later := mem_cons.mp mem
    · exact ⟨item, mem_cons_self, is_first⟩
    · obtain ⟨other, listed, is_other⟩ := ih is_more later
      exact ⟨other, mem_cons_of_mem _ listed, is_other⟩

theorem owned_flattenWithin (held : regime.holds session) {fuel depth items result}
    (owned : regime.Owned session.heap items)
    (flat : session.heap.flattenWithin fuel depth items = some result) :
    regime.Owned session.heap result := by
  induction fuel generalizing depth items result with
  | zero => cases flat
  | succ fuel ih =>
    intro value mem
    obtain ⟨parts, are_parts, rfl⟩ := Option.map_eq_some_iff.mp flat
    obtain ⟨part, part_mem, mem⟩ := mem_flatten.mp mem
    obtain ⟨item, item_mem, is_part⟩ := exists_of_mem_mapM are_parts part_mem
    split at is_part
    · rename_i cell
      split at is_part
      · exact ih (kept.owns_contents (.list cell) held) is_part value mem
      · cases is_part
        exact mem_singleton.mp mem ▸ owned _ item_mem
    · cases is_part
      exact mem_singleton.mp mem ▸ owned _ item_mem

theorem flattened (items : Value) (limit : Int) : regime.Handles session regime.owns (do
    let items ← Mem.itemsOf items
    let heap ← get
    match heap.flattenWithin (heap.size + nestingLimit) limit items with
    | some items => Mem.newList items
    | none => throw .tooDeep) := by
  refine kept.heap_bind (kept.itemsOf items) fun elements _ _ owned => ?_
  refine heap_inspect fun held => ?_
  split
  · rename_i flat is_flat
    exact kept.newList (kept.owned_flattenWithin held owned is_flat)
  · exact kept.heap_stopped rfl

theorem flattenList (items depth : Value) :
    regime.Handles session regime.owns (Mem.flattenList items depth) := by
  unfold Mem.flattenList
  split
  · exact kept.flattened items _
  · exact kept.heap_bind (kept.heap_converted _) fun limit _ _ _ => kept.flattened items limit

theorem text (value : Value) : regime.Handles session (fun _ _ => True) (Mem.text value) :=
  heap_inspect fun _ => kept.heap_pure trivial

theorem heap_scalar (scalar : value.handle? = none) :
    regime.Handles session regime.owns (Pure.pure value) :=
  kept.heap_pure (kept.owns_scalar scalar)

/-- Something of no interest, and then a result that is no container. -/
theorem heap_then_scalar {f : α → Value} (handles : regime.Handles session post act)
    (scalar : ∀ value, (f value).handle? = none) :
    regime.Handles session regime.owns (act >>= fun value => Pure.pure (f value)) :=
  kept.heap_bind handles fun _ _ _ _ => kept.heap_scalar (scalar _)

theorem headD {default} (owned : regime.Owned session.heap args) (scalar : default.handle? = none) :
    regime.owns session.heap (args.headD default) := by
  cases args with
  | nil => exact kept.owns_scalar scalar
  | cons first rest => exact owned.head

theorem applyContainer (f : ContainerFunction) (owned : regime.Owned session.heap args) :
    regime.Handles session regime.owns (f.apply args) := by
  unfold ContainerFunction.apply
  split
  · exact heap_inspect fun _ => kept.heap_then_scalar (kept.heap_converted _) fun _ => rfl
  · exact heap_inspect fun _ => kept.heap_scalar rfl
  · exact kept.getItem _ _ (kept.headD owned.tail.tail rfl)
  · exact kept.insert owned.head owned.tail.head _
  · exact kept.append owned.head owned.tail.head
  · exact kept.extend _ _ owned.head
  · exact kept.removeItem _ _ _
  · exact kept.copyOf owned.head
  · exact kept.deepCopy owned.head
  · refine kept.heap_bind (kept.listCell _) fun cell _ leads _ => heap_inspect fun held => ?_
    have storable := kept.storable_contents held (.list cell)
    refine kept.heap_bind (kept.setList (storable.subset ?_)) fun _ _ leads' _ =>
      kept.heap_pure (leads'.owns (leads.owns owned.head))
    exact fun value mem => mem_reverse.mp mem
  · refine kept.heap_bind (kept.listCell _) fun cell _ leads _ => heap_inspect fun held => ?_
    have storable := kept.storable_contents held (.list cell)
    refine kept.heap_bind (kept.uniqueFrom _ _) fun unique _ leads' subset => ?_
    refine kept.heap_bind (kept.setList ((storable.later leads').subset subset)) fun _ _ leads'' _ =>
      kept.heap_pure (leads''.owns (leads'.owns (leads.owns owned.head)))
  · exact kept.heap_bind (kept.heap_converted _) fun _ _ _ _ => kept.rangeList _ _ _
  · refine kept.heap_bind (kept.heap_converted _) fun step _ _ _ => ?_
    split
    · exact kept.heap_fault _
    · split
      · exact kept.heap_bind (kept.heap_converted _) fun _ _ _ _ => kept.rangeList _ _ _
      · exact kept.heap_bind (kept.heap_converted _) fun _ _ _ _ =>
          kept.heap_bind (kept.heap_converted _) fun _ _ _ _ => kept.rangeList _ _ _
  · exact kept.heap_bind (kept.itemsOf _) fun _ _ _ _ =>
      kept.heap_bind (kept.heap_converted _) fun _ _ _ _ =>
        kept.heap_then_scalar (kept.search _ _ _) fun _ => rfl
  · refine heap_inspect fun held => ?_
    split
    · exact kept.heap_then_scalar (kept.countEqual _ _) fun _ => rfl
    · exact kept.heap_bind (kept.elements _) fun _ _ _ _ =>
        kept.heap_then_scalar (kept.countEqual _ _) fun _ => rfl
  · exact kept.extremum _ _
  · exact kept.extremum _ _
  · exact kept.flattenList _ _
  · exact kept.heap_bind (kept.entriesOf _) fun _ _ _ _ =>
      kept.heap_then_scalar (kept.text _) fun _ => rfl
  · refine kept.heap_bind (kept.entriesOf _) fun entries _ _ _ => kept.newList ?_
    refine kept.owned_scalars fun value mem => ?_
    obtain ⟨key, _, rfl⟩ := mem_map.mp mem
    rfl
  · exact kept.heap_bind (kept.entriesOf _) fun entries _ _ owned => kept.newList owned
  · refine kept.heap_bind (kept.entriesOf _) fun entries _ _ owned => ?_
    exact kept.heap_bind (kept.newPairs owned) fun _ _ _ owned => kept.newList owned
  · exact kept.heap_scalar rfl
  · exact kept.heap_scalar rfl
  · exact kept.heap_stopped rfl

/-! ### Functions on text -/

section Documents

mutual

theorem ofDocument {session} : ∀ document : Document,
    regime.Handles session regime.owns (Mem.ofDocument document)
  | .null | .bool _ | .integer _ | .number _ | .text _ => by
    unfold Mem.ofDocument
    exact kept.heap_scalar rfl
  | .sequence items => by
    unfold Mem.ofDocument
    exact kept.heap_bind (ofItems items) fun _ _ _ owned => kept.newList owned
  | .mapping entries => by
    unfold Mem.ofDocument
    refine kept.heap_bind (ofEntries entries) fun _ _ _ owned => kept.newObject ?_
    exact Table.forall_values_ofList owned

theorem ofItems {session} : ∀ items : List Document,
    regime.Handles session regime.Owned (Mem.ofItems items)
  | [] => by
    unfold Mem.ofItems
    exact kept.heap_pure .nil
  | item :: rest => by
    unfold Mem.ofItems
    refine kept.heap_bind (ofDocument item) fun _ _ _ owned => ?_
    exact kept.heap_bind (ofItems rest) fun _ _ leads more_owned =>
      kept.heap_pure (.cons (leads.owns owned) more_owned)

theorem ofEntries {session} : ∀ entries : List (String × Document),
    regime.Handles session (fun heap made => ∀ entry ∈ made, regime.owns heap entry.2)
      (Mem.ofEntries entries)
  | [] => by
    unfold Mem.ofEntries
    exact kept.heap_pure nofun
  | (key, item) :: rest => by
    unfold Mem.ofEntries
    refine kept.heap_bind (ofDocument item) fun value _ _ owned => ?_
    refine kept.heap_bind (ofEntries rest) fun more _ leads more_owned => kept.heap_pure ?_
    intro entry mem
    obtain rfl | mem := mem_cons.mp mem
    · exact leads.owns owned
    · exact more_owned entry mem

end

end Documents

theorem repeatItems (items : List α) (count : Int) :
    regime.Handles session (fun _ result => result ⊆ items)
      (TextFunction.repeatItems items count) := by
  unfold TextFunction.repeatItems
  split
  · exact kept.heap_stopped rfl
  · split
    · exact kept.heap_pure (nil_subset _)
    · split
      · exact kept.heap_stopped rfl
      · refine kept.heap_pure fun value mem => ?_
        obtain ⟨part, listed, mem⟩ := mem_flatten.mp mem
        exact eq_of_mem_replicate listed ▸ mem

theorem joinItems (items : Value) (separator : String) :
    regime.Handles session regime.owns (TextFunction.joinItems items separator) := by
  cases items with
  | list cell => exact heap_inspect fun _ => kept.heap_scalar rfl
  | _ => exact kept.heap_fault _

theorem splitToList (text separator keepEmpty : Value) :
    regime.Handles session regime.owns (TextFunction.splitToList text separator keepEmpty) := by
  refine heap_inspect fun _ => kept.newList (kept.owned_scalars fun value mem => ?_)
  obtain ⟨part, _, rfl⟩ := mem_map.mp mem
  rfl

theorem heap_given {result} (scalar : GivesScalar result) :
    regime.Handles session regime.owns (Mem.ofExcept result) :=
  kept.heap_ofExcept fun value given => kept.owns_scalar (scalar value given)

theorem applyText (f : TextFunction) : regime.Handles session regime.owns (f.apply args) := by
  unfold TextFunction.apply
  split
  · exact kept.heap_then_scalar (kept.text _) fun _ => rfl
  · refine kept.heap_bind (kept.heap_converted _) fun code _ _ _ => kept.heap_given ?_
    unfold TextFunction.charOfCode
    split
    · exact .error _
    · exact .ok rfl
  iterate 5
    · exact kept.heap_then_scalar (kept.text _) fun _ => rfl
  · exact kept.heap_bind (kept.text _) fun _ _ _ _ => kept.heap_bind (kept.text _) fun _ _ _ _ =>
      kept.heap_then_scalar (kept.heap_converted _) fun _ => rfl
  · refine kept.heap_bind (kept.heap_converted _) fun count _ _ _ => ?_
    dsimp only
    split
    · rename_i cell
      refine heap_inspect fun held => kept.heap_bind (kept.repeatItems _ _) fun _ _ leads subset => ?_
      exact kept.newList (((kept.owns_contents (.list cell) held).subset subset).later leads)
    · exact kept.heap_bind (kept.text _) fun _ _ _ _ =>
        kept.heap_then_scalar (kept.repeatItems _ _) fun _ => rfl
  · refine kept.heap_bind (kept.text _) fun text _ _ _ => kept.heap_given (.bind fun base => ?_)
    unfold TextFunction.textToInteger
    split
    · exact .ok rfl
    · exact .error _
  · exact kept.heap_then_scalar (kept.text _) fun _ => rfl
  · exact kept.splitToList _ _ _
  · exact kept.splitToList _ _ _
  · exact kept.splitToList _ _ _
  · exact kept.heap_bind (kept.text _) fun _ _ _ _ => kept.joinItems _ _
  · exact heap_inspect fun _ => kept.heap_scalar rfl
  · exact heap_inspect fun _ => kept.heap_then_scalar (kept.heap_converted _) fun _ => rfl
  · exact kept.heap_bind (kept.text _) fun _ _ _ _ =>
      kept.heap_bind (kept.heap_converted _) fun document _ _ _ => kept.ofDocument document
  · exact kept.heap_stopped rfl

end Regime.Kept

end Vimlet
