import Mathlib.Order.Bounds.Basic
import Vimlet.Proofs.Value.Atomicity
import Vimlet.Proofs.Value.Equality

/-!
# Positions in a List

`remove` takes the elements from one index to another out of a List; its first index has to be in
range, and the last one is taken modulo the length. `index` looks for a value from an index on. Its
scan goes through the negative indices before the positions from zero on.
-/

namespace Vimlet

open List Heap ContainerFunction

variable {heap : Heap} {items : List Value} {index start : Int}

/-! ### Removing a range -/

section Removal

variable {α : Type}

/-- The elements at the positions that are named, in order. -/
def atPositions (named : Nat → Prop) [DecidablePred named] (items : List α) : List α :=
  (items.zipIdx.filter fun entry => named entry.2).map (·.1)

variable {named : Nat → Prop} [DecidablePred named]

theorem filter_zipIdx_of_forall {items : List α} {start}
    (all : ∀ position, start ≤ position → position < start + items.length → named position) :
    ((items.zipIdx start).filter fun entry => named entry.2).map (·.1) = items := by
  have kept : ∀ entry ∈ items.zipIdx start, decide (named entry.2) = true := by
    intro entry mem
    exact decide_eq_true
      (all entry.2 (le_snd_of_mem_zipIdx mem) (snd_lt_add_of_mem_zipIdx mem))
  rw [filter_eq_self.mpr kept, zipIdx_map_fst]

theorem filter_zipIdx_of_forall_not {items : List α} {start}
    (none_named : ∀ position, start ≤ position → position < start + items.length →
      ¬named position) :
    ((items.zipIdx start).filter fun entry => named entry.2).map (·.1) = [] := by
  have dropped : ∀ entry ∈ items.zipIdx start, ¬decide (named entry.2) = true := by
    intro entry mem
    rw [decide_eq_true_iff]
    exact none_named entry.2 (le_snd_of_mem_zipIdx mem) (snd_lt_add_of_mem_zipIdx mem)
  rw [filter_eq_nil_iff.mpr dropped, map_nil]

/-- The elements of a stretch are those at its positions, and the others are those around it. -/
theorem Spliced.atPositions_eq {removed before after : List α}
    (spliced : Spliced start removed [] before after)
    (named_iff : ∀ position : Nat,
      named position ↔ start ≤ position ∧ (position : Int) < start + removed.length) :
    atPositions named before = removed ∧ atPositions (fun position => ¬named position) before =
      after := by
  obtain ⟨front, back, rfl, rfl, rfl⟩ := spliced
  have front_out (position : Nat) (high : position < front.length) : ¬named position := by
    rw [named_iff]
    omega
  have removed_in (position : Nat) (low : front.length ≤ position)
      (high : position < front.length + removed.length) : named position := by
    rw [named_iff]
    omega
  have back_out (position : Nat) (low : front.length + removed.length ≤ position) :
      ¬named position := by
    rw [named_iff]
    omega
  simp only [atPositions, zipIdx_append, filter_append, map_append, length_append, Nat.zero_add]
  constructor
  · rw [filter_zipIdx_of_forall_not fun position _ high => front_out position (by omega),
      filter_zipIdx_of_forall removed_in,
      filter_zipIdx_of_forall_not fun position low _ => back_out position low,
      nil_append, append_nil]
  · rw [filter_zipIdx_of_forall fun position _ high => front_out position (by omega),
      filter_zipIdx_of_forall_not fun position low high =>
        not_not.mpr (removed_in position low high),
      filter_zipIdx_of_forall fun position low _ => back_out position low]

end Removal

theorem emod_eq_fromEnd {size : Nat} (low : -(size : Int) ≤ index) (high : index < size) :
    index % size = fromEnd size index := by
  unfold fromEnd
  split
  · rw [← Int.add_emod_left, Int.emod_eq_of_lt] <;> omega
  · rw [Int.emod_eq_of_lt] <;> omega

/-- Removing a range needs a first index in range; the last one counts modulo the length. The
elements between them go into a new List, and all others stay. -/
theorem remove_range {heap : Heap} {cell : Nat} (valid : cell < heap.lists.size) (i j : Int) :
    let items := heap.list cell
    let size : Int := items.length
    let named (position : Nat) := fromEnd items.length i ≤ position ∧ (position : Int) ≤ j % size
    let outcome := apply .remove [.list cell, .integer i, .integer j] heap
    (¬(-size ≤ i ∧ i < size) → outcome = .error (.fault (.expected (.indexInRange i))) heap) ∧
    (-size ≤ i ∧ i < size → ∃ after, outcome = .ok (.list heap.lists.size) after ∧
      heap.ChangesOnly (.list cell) after ∧
      after.list heap.lists.size = atPositions named items ∧
      after.list cell = atPositions (fun position => ¬named position) items) ∧
    (-size ≤ j ∧ j < size → j % size = fromEnd items.length j) := by
  intro items size named outcome
  refine ⟨fun outside => ?_, fun inside => ?_, fun inside => emod_eq_fromEnd inside.1 inside.2⟩
  · exact Mutation.removeItem_missing rfl (by rw [position?_eq, if_neg outside]) (.integer j)
  · have found : position? items.length i = some (fromEnd items.length i).toNat := by
      rw [position?_eq, if_pos inside]
    obtain ⟨low, high⟩ := fromEnd_range inside
    have last_low : 0 ≤ j % size := Int.emod_nonneg _ (by omega)
    have last_high : j % size < size := Int.emod_lt_of_pos _ (by omega)
    generalize first_eq : (fromEnd items.length i).toNat = first at found
    have read (n : Int) : (Value.integer n).toInt = .ok n := rfl
    have given : Value.integer j ≠ .nil := nofun
    obtain ⟨after, run, sets, made⟩ :=
      Mutation.removeItem_range valid (read i) found given (read j) rfl
    change _ = (items.drop first).take ((j % size).toNat + 1 - first) at made
    have stretch := spliced_stretch items [] first ((j % size).toNat + 1 - first) (by omega)
    rw [append_nil] at stretch
    have named_iff (position : Nat) : named position ↔ (first : Int) ≤ position ∧ (position : Int) <
        first + ((items.drop first).take ((j % size).toNat + 1 - first)).length := by
      rw [length_take, length_drop]
      omega
    obtain ⟨removed_eq, kept_eq⟩ := stretch.atPositions_eq named_iff
    exact ⟨after, run, sets.others, made.trans removed_eq.symm, sets.elements.trans kept_eq.symm⟩

/-- A List of the numbers from one on. -/
def Heap.counting (size : Nat) : Heap where
  lists := #[{ items := ((range size).map fun n => .integer (n + 1)).toArray }]

/-- From the second element to the last one but one. -/
theorem remove_range_inner :
    0 < (counting 4).lists.size ∧ ∃ after,
      apply .remove [.list 0, .integer 1, .integer (-2)] (counting 4) =
        .ok (.list 1) after ∧
      after.list 1 = [.integer 2, .integer 3] ∧ after.list 0 = [.integer 1, .integer 4] := by
  have valid : 0 < (counting 4).lists.size := Nat.one_pos
  obtain ⟨_, removes, _⟩ := remove_range valid 1 (-2)
  obtain ⟨after, run, _, removed, kept⟩ := removes (by decide)
  exact ⟨valid, after, run, removed, kept⟩

/-- The last index is out of range, and yet nothing stops: it wraps around to the first position. -/
theorem remove_range_wraps :
    let size : Int := ((counting 4).list 0).length
    ¬(-size ≤ 4 ∧ 4 < size) ∧ ∃ after,
      apply .remove [.list 0, .integer 0, .integer 4] (counting 4) =
        .ok (.list 1) after ∧
      after.list 1 = [.integer 1] ∧
      after.list 0 = [.integer 2, .integer 3, .integer 4] :=
  ⟨by decide, _, rfl, rfl, rfl⟩

/-! ### Looking for a value -/

namespace Heap

variable {value : Value}

/-- The element under an index, which counts from the end if it is negative, equals a value. -/
def MatchesAt (heap : Heap) (items : List Value) (value : Value) (index : Int) : Prop :=
  -(items.length : Int) ≤ index ∧ ∃ item, items[(fromEnd items.length index).toNat]? = some item ∧
    heap.equal? item value = some true

theorem MatchesAt.lt (found : heap.MatchesAt items value index) : index < items.length := by
  obtain ⟨_, item, at_index, _⟩ := found
  obtain ⟨within, _⟩ := List.getElem?_eq_some_iff.mp at_index
  unfold fromEnd at within
  split at within <;> omega

/-- A position has a second index, counted from the end. -/
theorem matchesAt_sub (low : 0 ≤ index) (high : index < items.length) :
    heap.MatchesAt items value (index - items.length) ↔ heap.MatchesAt items value index := by
  have same : fromEnd items.length (index - items.length) = fromEnd items.length index := by
    rw [fromEnd, fromEnd, if_pos (by omega), if_neg (by omega)]
    omega
  rw [MatchesAt, MatchesAt, same, and_iff_right (by omega), and_iff_right (by omega)]

theorem isLeast_sub {position} (low : -(items.length : Int) ≤ start)
    (least : IsLeast {index | items.length + start ≤ index ∧ heap.MatchesAt items value index}
      position) :
    IsLeast {index | start ≤ index ∧ heap.MatchesAt items value index}
      (position - items.length) := by
  obtain ⟨⟨from_start, found⟩, before⟩ := least
  have high := found.lt
  constructor
  · exact ⟨by omega, (matchesAt_sub (by omega) high).mpr found⟩
  · rintro index ⟨from_index, found_index⟩
    by_cases counted : index < 0
    · have shifted : heap.MatchesAt items value (index + items.length) := by
        rw [← matchesAt_sub (by omega) (by omega), Int.add_sub_cancel]
        exact found_index
      have later : position ≤ index + items.length := before ⟨by omega, shifted⟩
      omega
    · omega

/-- The elements that are looked at in order, from a start on. -/
def scanned (items : List Value) (start : Int) : List Value :=
  if start < 0 then items.drop (items.length + start).toNat ++ items else items.drop start.toNat

theorem getElem?_scanned (low : -(items.length : Int) ≤ start) (offset : Nat) :
    (scanned items start)[offset]? = items[(fromEnd items.length (start + offset)).toNat]? := by
  unfold scanned fromEnd
  split
  · have length_eq : (items.drop (items.length + start).toNat).length = (-start).toNat := by
      rw [length_drop]
      omega
    by_cases early : start + offset < 0
    · rw [if_pos early, getElem?_append_left (by omega), getElem?_drop]
      congr 1
      omega
    · rw [if_neg early, getElem?_append_right (by omega), length_eq]
      congr 1
      omega
  · rw [if_neg (by omega), getElem?_drop]
    congr 1
    omega

theorem matchesAt_iff (low : -(items.length : Int) ≤ start) (offset : Nat) :
    heap.MatchesAt items value (start + offset) ↔
      ∃ item, (scanned items start)[offset]? = some item ∧ heap.equal? item value = some true := by
  rw [MatchesAt, getElem?_scanned low]
  exact and_iff_right (by omega)

/-- The number of elements before the first one that equals a value. -/
def firstMatch? (heap : Heap) (value : Value) (items : List Value) : Option Nat :=
  items.findIdx? fun item => heap.equal? item value == some true

theorem isLeast_of_firstMatch? (low : -(items.length : Int) ≤ start) {offset}
    (found : heap.firstMatch? value (scanned items start) = some offset) :
    IsLeast {index | start ≤ index ∧ heap.MatchesAt items value index} (start + offset) := by
  obtain ⟨within, equal, earlier⟩ := findIdx?_eq_some_iff_getElem.mp found
  constructor
  · refine ⟨by omega, (matchesAt_iff low offset).mpr ?_⟩
    exact ⟨_, getElem?_eq_getElem within, beq_iff_eq.mp equal⟩
  · rintro index ⟨from_start, found_index⟩
    obtain ⟨other, rfl⟩ := Int.le.dest from_start
    obtain ⟨item, at_other, item_equal⟩ := (matchesAt_iff low other).mp found_index
    by_contra before
    have other_lt : other < offset := by omega
    obtain ⟨_, rfl⟩ := List.getElem?_eq_some_iff.mp at_other
    exact earlier other other_lt (beq_iff_eq.mpr item_equal)

theorem not_matchesAt_of_firstMatch? (low : -(items.length : Int) ≤ start)
    (absent : heap.firstMatch? value (scanned items start) = none) (from_start : start ≤ index) :
    ¬heap.MatchesAt items value index := by
  obtain ⟨offset, rfl⟩ := Int.le.dest from_start
  rw [matchesAt_iff low]
  rintro ⟨item, at_offset, equal⟩
  have unequal := findIdx?_eq_none_iff.mp absent item (mem_of_getElem? at_offset)
  rw [equal] at unequal
  cases unequal

end Heap

/-- The index of a match some elements after a start, or -1. -/
def matchIndex (start : Int) : Option Nat → Int
  | some offset => start + offset
  | none => -1

theorem matchIndex_succ (start : Int) (match? : Option Nat) :
    matchIndex start (match?.map (· + 1)) = matchIndex (start + 1) match? := by
  cases match? with
  | none => rfl
  | some offset =>
    rw [Option.map_some, matchIndex, matchIndex]
    omega

theorem Mem.searchFrom_eq (acyclic : ∀ item ∈ items, heap.Acyclic item) (value : Value)
    (start : Int) :
    searchFrom value start items heap =
      .ok (matchIndex start (heap.firstMatch? value items)) heap := by
  induction items generalizing start with
  | nil => rfl
  | cons item rest ih =>
    obtain ⟨answer, answered⟩ := exists_equal? (acyclic item mem_cons_self) value
    have run : Mem.equal item value heap = .ok answer heap := Mem.equal_eq_ok.mpr ⟨answered, rfl⟩
    rw [searchFrom, Run.bind_ok run, Heap.firstMatch?, findIdx?_cons, answered]
    cases answer with
    | true => exact congrArg (EStateM.Result.ok · heap) (Int.add_zero start).symm
    | false =>
      have rest_acyclic : ∀ other ∈ rest, heap.Acyclic other := fun other mem =>
        acyclic other (mem_cons_of_mem item mem)
      exact (ih rest_acyclic (start + 1)).trans
        (congrArg (EStateM.Result.ok · heap) (matchIndex_succ start _).symm)

/-- A search that does not start before the List gives the first match of its scan. -/
theorem Mem.search_eq (acyclic : ∀ item ∈ items, heap.Acyclic item) (value : Value)
    (low : -(items.length : Int) ≤ start) :
    search items value start heap =
      .ok (matchIndex start (heap.firstMatch? value (Heap.scanned items start))) heap := by
  have scanned_acyclic : ∀ item ∈ Heap.scanned items start, heap.Acyclic item := by
    intro item mem
    refine acyclic item ?_
    unfold Heap.scanned at mem
    split at mem
    · exact (mem_append.mp mem).elim mem_of_mem_drop id
    · exact mem_of_mem_drop mem
  rw [← searchFrom_eq scanned_acyclic, search, if_neg (by omega), Heap.scanned]
  split <;> rfl

/-- The answer of a search is the least index from the start on that leads to an equal element,
where zero follows on the last negative index. From a start that is not negative this is the first
match, or -1; a match after a negative start is answered by its index from the end. -/
theorem index_first_match {heap : Heap} {cell : Nat}
    (acyclic : ∀ item ∈ heap.list cell, heap.Acyclic item) (value : Value) {start : Int}
    (low : -((heap.list cell).length : Int) ≤ start) :
    let size : Int := (heap.list cell).length
    let matching (first : Int) :=
      {index | first ≤ index ∧ heap.MatchesAt (heap.list cell) value index}
    ∃ answer, apply .index [.list cell, value, .integer start] heap =
        .ok (.integer answer) heap ∧
      (IsLeast (matching start) answer ∨ matching start = ∅ ∧ answer = -1) ∧
      (0 ≤ start → (answer = -1 ↔ matching start = ∅)) ∧
      ∀ position, start < 0 → IsLeast (matching (size + start)) position →
        answer = position - size := by
  intro size matching
  have run : (do return Value.integer (← Mem.search (heap.list cell) value start)) heap = _ :=
    Run.bind_ok (Mem.search_eq acyclic value low)
  refine ⟨_, run, ?_⟩
  cases found : heap.firstMatch? value (Heap.scanned (heap.list cell) start) with
  | some offset =>
    have least : IsLeast (matching start) (start + offset) :=
      Heap.isLeast_of_firstMatch? low found
    refine ⟨.inl least, fun not_negative => ?_, fun position _ other_least => ?_⟩
    · have nonempty : matching start ≠ ∅ := Set.Nonempty.ne_empty ⟨_, least.1⟩
      simp only [matchIndex, nonempty, iff_false]
      omega
    · exact least.unique (Heap.isLeast_sub low other_least)
  | none =>
    have empty : matching start = ∅ := Set.eq_empty_of_forall_notMem fun index mem =>
      Heap.not_matchesAt_of_firstMatch? low found mem.1 mem.2
    refine ⟨.inr ⟨empty, rfl⟩, fun _ => iff_of_true rfl empty, fun position _ least => ?_⟩
    have mem : _ ∈ matching start := (Heap.isLeast_sub low least).1
    rw [empty] at mem
    exact absurd mem (Set.notMem_empty _)

/-- A List of two equal Lists and a number. -/
def Heap.pair : Heap where
  lists :=
    #[{ items := #[.list 1, .integer 1, .list 2] }, { items := #[.nil] }, { items := #[.nil] }]

def Heap.pairRank : Value → Nat
  | .list 0 => 2
  | .list _ => 1
  | _ => 0

/-- The second one of two equal Lists is found after the first one. -/
theorem index_first_match_pair :
    (∀ item ∈ pair.list 0, pair.Acyclic item) ∧
      -((pair.list 0).length : Int) ≤ 1 ∧
      apply .index [.list 0, .list 1, .integer 1] pair =
        .ok (.integer 2) pair ∧
      IsLeast {index | 1 ≤ index ∧ pair.MatchesAt (pair.list 0) (.list 1) index} 2 := by
  have acyclic : ∀ item ∈ pair.list 0, pair.Acyclic item := fun item _ =>
    acyclic_of_rank pairRank (forall_contents (by decide) (by decide)) item
  have low : -((pair.list 0).length : Int) ≤ 1 := by decide
  have answered : apply .index [.list 0, .list 1, .integer 1] pair =
      .ok (.integer 2) pair := rfl
  obtain ⟨answer, run, found, _⟩ := index_first_match acyclic (.list 1) low
  cases answered.symm.trans run
  exact ⟨acyclic, low, answered, found.resolve_right fun absent => nomatch absent.2⟩

/-- A match at the last position is answered by -1, as if there were none. -/
theorem index_hides_last_match :
    (counting 3).MatchesAt ((counting 3).list 0) (.integer 3) 2 ∧
      apply .index [.list 0, .integer 3, .integer (-1)] (counting 3) =
        .ok (.integer (-1)) (counting 3) :=
  ⟨⟨by decide, .integer 3, rfl, rfl⟩, rfl⟩

end Vimlet
