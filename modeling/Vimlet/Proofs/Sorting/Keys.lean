import Mathlib.Order.Lattice
import Vimlet.Sorting.Basic

/-!
# Merging by keys

If elements are compared by keys from a linear order, each step of a merge moves some of them past
others, all of which have other keys. So elements with the same key keep their order.
-/

namespace Vimlet.Sorting

open List

variable {α κ : Type} [LinearOrder κ]

/-! ### Orders -/

section Orders

variable (key : α → κ)

/-- The elements are in the order of their keys. -/
def Ordered (items : List α) : Prop := items.Pairwise fun a b => key a ≤ key b

/-- Elements with the same key are in the same order. -/
def Steady (items others : List α) : Prop :=
  ∀ k, (items.filter fun item => key item = k) = others.filter fun item => key item = k

/-- Elements are rearranged. If the comparison is an honest one, those with the same key keep their
order. -/
structure Moves (honest : Prop) (items others : List α) : Prop where
  perm : items.Perm others
  steady : honest → Steady key items others

/-- Elements are sorted, if the comparison is an honest one. -/
structure Sorts (honest : Prop) (items sorted : List α) : Prop
    extends Moves key honest items sorted where
  ordered : honest → Ordered key sorted

variable {key} {honest : Prop} {items others after : List α}

namespace Ordered

theorem le_last (ordered : Ordered key items) {item last} (mem : item ∈ items)
    (is_last : items.getLast? = some last) : key item ≤ key last := by
  obtain ⟨init, rfl⟩ := getLast?_eq_some_iff.mp is_last
  obtain before | single := mem_append.mp mem
  · exact (pairwise_append.mp ordered).2.2 item before last (mem_singleton_self last)
  · rw [mem_singleton.mp single]

theorem append {left right} (left_ordered : Ordered key left) (right_ordered : Ordered key right)
    (across : ∀ a ∈ left, ∀ b ∈ right, key a ≤ key b) :
    Ordered key (left ++ right) := pairwise_append.mpr ⟨left_ordered, right_ordered, across⟩

theorem first_le (ordered : Ordered key items) {item first} (mem : item ∈ items)
    (is_first : items.head? = some first) : key first ≤ key item := by
  obtain ⟨others, rfl⟩ := head?_eq_some_iff.mp is_first
  obtain rfl | other := mem_cons.mp mem
  · exact le_refl _
  · exact (pairwise_cons.mp ordered).1 item other

/-- Elements of two ordered lists that are put in order between the others. -/
theorem merged {front inner kept back merged} (left : Ordered key (front ++ inner))
    (right : Ordered key (kept ++ back)) (ordered : Ordered key merged)
    (same : (inner ++ kept).Perm merged) (front_le : ∀ a ∈ front, ∀ b ∈ kept ++ back, key a ≤ key b)
    (inner_le : ∀ a ∈ inner, ∀ b ∈ back, key a ≤ key b) :
    Ordered key (front ++ merged ++ back) := by
  obtain ⟨front_ordered, _, front_inner⟩ := pairwise_append.mp left
  obtain ⟨_, back_ordered, kept_back⟩ := pairwise_append.mp right
  have front_merged : ∀ a ∈ front, ∀ b ∈ merged, key a ≤ key b := by
    intro a a_mem b b_mem
    obtain b_inner | b_kept := mem_append.mp (same.mem_iff.mpr b_mem)
    · exact front_inner a a_mem b b_inner
    · exact front_le a a_mem b (mem_append_left _ b_kept)
  refine .append (.append front_ordered ordered front_merged) back_ordered fun a a_mem b b_mem => ?_
  obtain a_front | a_merged := mem_append.mp a_mem
  · exact front_le a a_front b (mem_append_right _ b_mem)
  · obtain a_inner | a_kept := mem_append.mp (same.mem_iff.mpr a_merged)
    · exact inner_le a a_inner b b_mem
    · exact kept_back a a_kept b b_mem

end Ordered

namespace Moves

theorem refl (items : List α) : Moves key honest items items := ⟨.refl _, fun _ _ => rfl⟩

theorem of_eq (same : items = others) : Moves key honest items others := same ▸ refl items

theorem trans (first : Moves key honest items others) (second : Moves key honest others after) :
    Moves key honest items after :=
  ⟨first.perm.trans second.perm, fun is_honest k =>
    (first.steady is_honest k).trans (second.steady is_honest k)⟩

theorem sorts (moves : Moves key honest items others) (sorts : Sorts key honest others after) :
    Sorts key honest items after := ⟨moves.trans sorts.toMoves, sorts.ordered⟩

theorem append {left left' right right'} (first : Moves key honest left left')
    (second : Moves key honest right right') :
    Moves key honest (left ++ right) (left' ++ right') where
  perm := first.perm.append second.perm
  steady is_honest k := by
    rw [filter_append, filter_append, first.steady is_honest k, second.steady is_honest k]

theorem part {before part other after} (whole : Moves key honest items (before ++ part ++ after))
    (moves : Moves key honest part other) : Moves key honest items (before ++ other ++ after) :=
  whole.trans (((Moves.refl before).append moves).append (.refl after))

/-- Elements are moved past others with other keys. -/
theorem comm {left right} (apart : honest → ∀ a ∈ left, ∀ b ∈ right, key a ≠ key b) :
    Moves key honest (left ++ right) (right ++ left) where
  perm := perm_append_comm
  steady is_honest k := by
    rw [filter_append, filter_append]
    by_cases left_none : left.filter (fun item => key item = k) = []
    · rw [left_none, append_nil, nil_append]
    · obtain ⟨a, mem⟩ := exists_mem_of_ne_nil _ left_none
      obtain ⟨a_mem, a_key⟩ := mem_filter.mp mem
      have right_none : right.filter (fun item => key item = k) = [] := by
        refine filter_eq_nil_iff.mpr fun b b_mem b_key => apart is_honest a a_mem b b_mem ?_
        rw [of_decide_eq_true a_key, of_decide_eq_true b_key]
      rw [right_none, append_nil, nil_append]

/-- An element is inserted after all that are not greater. -/
theorem insert {front back rest item} (less : honest → ∀ b ∈ back, key item < key b) :
    Moves key honest (front ++ back ++ item :: rest) (front ++ item :: back ++ rest) := by
  have moved : Moves key honest (back ++ [item]) ([item] ++ back) :=
    .comm fun is_honest b mem c single =>
      mem_singleton.mp single ▸ ne_of_gt (less is_honest b mem)
  simpa using ((Moves.refl front).append moved).append (.refl rest)

theorem reverse (apart : honest → items.Pairwise fun a b => key a ≠ key b) :
    Moves key honest items.reverse items := by
  induction items with
  | nil => exact .refl _
  | cons a items ih =>
    rw [reverse_cons]
    refine .trans ((ih fun is_honest => (pairwise_cons.mp (apart is_honest)).2).append
      (.refl [a])) (.comm fun is_honest b mem c single => ?_)
    have first_apart := (pairwise_cons.mp (apart is_honest)).1
    exact mem_singleton.mp single ▸ (first_apart b mem).symm

end Moves

end Orders

/-! ### Counts -/

/-- A count of elements at the front divides a list into those with a property and those without.
-/
def Divides (has : α → Bool) (items : List α) (count : Nat) : Prop :=
  (∀ item ∈ items.take count, has item = true) ∧ ∀ item ∈ items.drop count, has item = false

variable {has : α → Bool} {items : List α}

theorem divides_of_iff {count} (iff : ∀ i, items[i]?.any has = true ↔ i < count) :
    Divides has items count := by
  constructor
  · intro item mem
    obtain ⟨i, inside, rfl⟩ := mem_take_iff_getElem.mp mem
    have has_i := (iff i).mpr (by omega)
    rwa [List.getElem?_eq_getElem (by omega), Option.any_some] at has_i
  · intro item mem
    obtain ⟨i, inside, rfl⟩ := mem_drop_iff_getElem.mp mem
    have beyond := (iff (i + count)).not.mpr (by omega)
    rw [List.getElem?_eq_getElem inside, Option.any_some, Bool.not_eq_true] at beyond
    simpa [Nat.add_comm] using beyond

theorem any_getElem?_of_le (closed : items.Pairwise fun a b => has b = true → has a = true)
    (i j : Nat) (le : i ≤ j) (has_j : items[j]?.any has = true) : items[i]?.any has = true := by
  obtain rfl | lt := Nat.eq_or_lt_of_le le
  · exact has_j
  · obtain ⟨b, at_j, has_b⟩ := (Option.any_eq_true ..).mp has_j
    obtain ⟨inside, rfl⟩ := List.getElem?_eq_some_iff.mp at_j
    have has_a := List.pairwise_iff_getElem.mp closed i j (by omega) inside lt has_b
    rwa [List.getElem?_eq_getElem (by omega), Option.any_some]

theorem any_until (closed : items.Pairwise fun a b => has b = true → has a = true) {middle}
    (has_middle : true = items[middle]?.any has) : ∀ i < middle + 1, items[i]?.any has = true :=
  fun i within => any_getElem?_of_le closed i _ (Nat.le_of_lt_succ within) has_middle.symm

theorem any_from (closed : items.Pairwise fun a b => has b = true → has a = true) {middle : Nat}
    (lacks_middle : false = items[middle]?.any has) : ∀ i, middle ≤ i → items[i]?.any has = false :=
  fun i beyond => by
    by_contra has_i
    rw [any_getElem?_of_le closed _ i beyond (Bool.not_eq_false _ ▸ has_i)] at lacks_middle
    cases lacks_middle

/-! ### Merges -/

section Merges

variable (key : α → κ)

/-- An element comes no later than another one. -/
def Direction.NoLater (direction : Direction) (a b : α) : Prop :=
  match direction with
  | .upward => key a ≤ key b
  | .downward => key b ≤ key a

namespace Merge

/-- An element of the left run is taken before one of the right run. -/
def wins (direction : Direction) (right left : α) : Bool :=
  decide (key right < key left) == (direction == .downward)

variable {key} {direction : Direction} {left right : α}

theorem wins_upward : wins key .upward right left = true ↔ key left ≤ key right := by
  have up : (Direction.upward == .downward) = false := rfl
  simp [wins, up]

theorem wins_downward : wins key .downward right left = true ↔ key right < key left := by
  simp [wins]

theorem loses_upward : wins key .upward right left = false ↔ key right < key left := by
  rw [← Bool.not_eq_true, wins_upward, not_le]

theorem loses_downward : wins key .downward right left = false ↔ key left ≤ key right := by
  rw [← Bool.not_eq_true, wins_downward, not_lt]

theorem wins_of_noLater_right {next} (wins_right : wins key direction right left = true)
    (later : direction.NoLater key right next) : wins key direction next left = true := by
  cases direction with
  | upward => exact wins_upward.mpr ((wins_upward.mp wins_right).trans later)
  | downward => exact wins_downward.mpr (lt_of_le_of_lt later (wins_downward.mp wins_right))

theorem wins_of_noLater_left {next} (wins_next : wins key direction right next = true)
    (later : direction.NoLater key left next) : wins key direction right left = true := by
  cases direction with
  | upward => exact wins_upward.mpr (le_trans later (wins_upward.mp wins_next))
  | downward => exact wins_downward.mpr (lt_of_lt_of_le (wins_downward.mp wins_next) later)

theorem noLater_of_wins (win : wins key direction right left = true) :
    direction.NoLater key left right := by
  cases direction with
  | upward => exact wins_upward.mp win
  | downward => exact le_of_lt (wins_downward.mp win)

theorem noLater_of_loses (lose : wins key direction right left = false) :
    direction.NoLater key right left := by
  cases direction with
  | upward => exact le_of_lt (loses_upward.mp lose)
  | downward => exact loses_downward.mp lose

variable (key) in
/-- What was taken and what remains of a run is in order, and the run put aside ends with the last
element of all. -/
structure Underway (merge : Merge α) : Prop where
  left : (merge.merged.reverse ++ merge.left).Pairwise (merge.direction.NoLater key)
  right : (merge.merged.reverse ++ merge.right).Pairwise (merge.direction.NoLater key)
  up : merge.direction = .upward → ∀ last ∈ merge.left.getLast?, ∀ other ∈ merge.right,
    key other < key last
  down : merge.direction = .downward → ∀ last ∈ merge.right.getLast?, ∀ other ∈ merge.left,
    key last < key other

variable (key) in
/-- Elements at the front of the left run are taken before all of the right run. -/
def LeftAhead (merge : Merge α) (count : Nat) : Prop :=
  ∀ left ∈ merge.left.take count, ∀ right ∈ merge.right,
    wins key merge.direction right left = true

variable (key) in
/-- Elements at the front of the right run are taken before all of the left run. -/
def RightAhead (merge : Merge α) (count : Nat) : Prop :=
  ∀ right ∈ merge.right.take count, ∀ left ∈ merge.left,
    wins key merge.direction right left = false

variable {merge : Merge α} {count : Nat} {honest : Prop}

omit [LinearOrder κ] in
theorem runs_subset {all} (subset : merge.arranged ⊆ all) :
    merge.left ⊆ all ∧ merge.right ⊆ all := by
  unfold arranged at subset
  split at subset <;> simp_all [append_subset, reverse_subset]

theorem Underway.win_all (underway : Underway key merge) {first x others}
    (is_right : merge.right = first :: others) (win : wins key merge.direction first x = true) :
    ∀ y ∈ merge.right, wins key merge.direction y x = true := by
  have ordered := (pairwise_append.mp underway.right).2.1
  rw [is_right, pairwise_cons] at ordered
  rw [is_right]
  exact forall_mem_cons.mpr
    ⟨win, fun y mem => wins_of_noLater_right win (ordered.1 y mem)⟩

theorem Underway.lose_all (underway : Underway key merge) {first y others}
    (is_left : merge.left = first :: others) (lose : wins key merge.direction y first = false) :
    ∀ x ∈ merge.left, wins key merge.direction y x = false := by
  have ordered := (pairwise_append.mp underway.left).2.1
  rw [is_left, pairwise_cons] at ordered
  rw [is_left]
  refine forall_mem_cons.mpr ⟨lose, fun x mem => ?_⟩
  by_contra win
  rw [wins_of_noLater_left (Bool.not_eq_false _ ▸ win) (ordered.1 x mem)] at lose
  cases lose

omit [LinearOrder κ] in
theorem mem_getLast?_of_drop {items : List α} {last} (mem : last ∈ (items.drop count).getLast?) :
    last ∈ items.getLast? := by
  rw [getLast?_drop] at mem
  split at mem
  · cases mem
  · exact mem

omit [LinearOrder κ] in
/-- Elements at the front of a run that come before the other run are put to those in order. -/
theorem pairwise_take {le : α → α → Prop} {done own other : List α}
    (own_ordered : (done ++ own).Pairwise le) (other_ordered : (done ++ other).Pairwise le)
    (first : ∀ a ∈ own.take count, ∀ b ∈ other, le a b) :
    (done ++ own.take count ++ own.drop count).Pairwise le ∧
      (done ++ own.take count ++ other).Pairwise le := by
  refine ⟨by rwa [append_assoc, take_append_drop], ?_⟩
  obtain ⟨_, other_only, other_later⟩ := pairwise_append.mp other_ordered
  have taken := own_ordered.sublist ((Sublist.refl done).append (take_sublist count own))
  refine pairwise_append.mpr ⟨taken, other_only, fun a a_mem b b_mem => ?_⟩
  obtain before | now := mem_append.mp a_mem
  · exact other_later a before b b_mem
  · exact first a now b b_mem

theorem Underway.takeLeft (underway : Underway key merge) (win : LeftAhead key merge count) :
    Underway key (merge.takeLeft count) := by
  obtain ⟨left_ordered, right_ordered, up, down⟩ := underway
  obtain ⟨left_taken, right_later⟩ := pairwise_take left_ordered right_ordered
    fun a a_mem b b_mem => noLater_of_wins (win a a_mem b b_mem)
  have taken : (merge.takeLeft count).merged.reverse =
      merge.merged.reverse ++ merge.left.take count := by simp [Merge.takeLeft]
  exact ⟨taken ▸ left_taken, taken ▸ right_later,
    fun is_up last is_last => up is_up last (mem_getLast?_of_drop is_last),
    fun is_down last is_last other mem =>
      down is_down last is_last other (mem_of_mem_drop mem)⟩

theorem Underway.takeRight (underway : Underway key merge) (lose : RightAhead key merge count) :
    Underway key (merge.takeRight count) := by
  obtain ⟨left_ordered, right_ordered, up, down⟩ := underway
  obtain ⟨right_taken, left_later⟩ := pairwise_take right_ordered left_ordered
    fun a a_mem b b_mem => noLater_of_loses (lose a a_mem b b_mem)
  have taken : (merge.takeRight count).merged.reverse =
      merge.merged.reverse ++ merge.right.take count := by simp [Merge.takeRight]
  exact ⟨taken ▸ left_later, taken ▸ right_taken,
    fun is_up last is_last other mem => up is_up last is_last other (mem_of_mem_drop mem),
    fun is_down last is_last => down is_down last (mem_getLast?_of_drop is_last)⟩

theorem moves_takeLeft (win : honest → LeftAhead key merge count) :
    Moves key honest merge.arranged (merge.takeLeft count).arranged := by
  have parts := take_append_drop count merge.left
  unfold arranged
  unfold LeftAhead at win
  dsimp only [Merge.takeLeft]
  generalize merge.left.take count = front, merge.left.drop count = back,
    merge.direction = direction at win parts ⊢
  rw [← parts]
  cases direction with
  | upward =>
    simp only [reverse_append, reverse_reverse, append_assoc]
    exact .refl _
  | downward =>
    have apart (is_honest : honest) :
        ∀ a ∈ front.reverse, ∀ b ∈ merge.right.reverse, key a ≠ key b := by
      intro a a_mem b b_mem
      have ahead := win is_honest a (mem_reverse.mp a_mem) b (mem_reverse.mp b_mem)
      exact ne_of_gt (wins_downward.mp ahead)
    simpa using ((Moves.refl back.reverse).append (.comm apart)).append (.refl merge.merged)

theorem moves_takeRight (lose : honest → RightAhead key merge count) :
    Moves key honest merge.arranged (merge.takeRight count).arranged := by
  have parts := take_append_drop count merge.right
  unfold arranged
  unfold RightAhead at lose
  dsimp only [Merge.takeRight]
  generalize merge.right.take count = front, merge.right.drop count = back,
    merge.direction = direction at lose parts ⊢
  rw [← parts]
  cases direction with
  | upward =>
    have apart (is_honest : honest) : ∀ a ∈ merge.left, ∀ b ∈ front, key a ≠ key b :=
      fun a a_mem b b_mem => ne_of_gt (loses_upward.mp (lose is_honest b b_mem a a_mem))
    simpa using (Moves.refl merge.merged.reverse).append ((Moves.comm apart).append (.refl back))
  | downward =>
    simp only [reverse_append, append_assoc]
    exact .refl _

theorem Underway.ordered (underway : Underway key merge) (no_left : merge.left = [])
    (no_right : merge.right = []) : Ordered key merge.arranged := by
  have ordered := underway.left
  rw [no_left, append_nil] at ordered
  unfold arranged
  rw [no_left, no_right]
  generalize merge.direction = direction at ordered ⊢
  cases direction with
  | upward => exact (append_nil _).symm ▸ ordered
  | downward => exact pairwise_reverse.mp ordered

/-- If the order of what remains is known, all of one run comes before all of the other one. -/
theorem settled_cases {rest} (underway : honest → Underway key merge)
    (settled : merge.settled? = some rest) :
    rest = merge.left ++ merge.right ∧
        (honest → ∀ x ∈ merge.left, ∀ y ∈ merge.right, wins key merge.direction y x = true) ∨
      rest = merge.right ++ merge.left ∧
        (honest → ∀ y ∈ merge.right, ∀ x ∈ merge.left, wins key merge.direction y x = false) := by
  unfold settled? at settled
  split at settled <;> cases settled
  case h_3 last is_up is_left _ =>
    refine .inr ⟨by rw [is_left], fun is_honest y mem x single => ?_⟩
    rw [is_left, mem_singleton] at single
    rw [single, is_up, loses_upward]
    exact (underway is_honest).up is_up last (by rw [is_left]; rfl) y mem
  case h_6 last is_down is_right _ =>
    refine .inl ⟨by rw [is_right], fun is_honest x mem y single => ?_⟩
    rw [is_right, mem_singleton] at single
    rw [single, is_down, wins_downward]
    exact (underway is_honest).down is_down last (by rw [is_right]; rfl) x mem
  all_goals exact .inl (by simp_all)

theorem sorts_settled {rest} (underway : honest → Underway key merge)
    (settled : merge.settled? = some rest) :
    Sorts key honest merge.arranged (merge.finish rest) := by
  obtain ⟨rfl, win⟩ | ⟨rfl, lose⟩ := settled_cases underway settled
  · have all_win (is_honest : honest) : LeftAhead key merge merge.left.length := by
      simpa [LeftAhead] using win is_honest
    let next := merge.takeLeft merge.left.length
    have no_left : next.left = [] := drop_length
    have none_left : RightAhead key next next.right.length := by simp [RightAhead, no_left]
    have same : (next.takeRight next.right.length).arranged =
        merge.finish (merge.left ++ merge.right) := by
      unfold arranged finish
      cases is_up : merge.direction <;> simp [next, Merge.takeLeft, Merge.takeRight, is_up]
    have moves := (moves_takeLeft all_win).trans (moves_takeRight fun _ => none_left)
    exact same ▸ ⟨moves, fun is_honest => (((underway is_honest).takeLeft
      (all_win is_honest)).takeRight none_left).ordered no_left drop_length⟩
  · have all_lose (is_honest : honest) : RightAhead key merge merge.right.length := by
      simpa [RightAhead] using lose is_honest
    let next := merge.takeRight merge.right.length
    have no_right : next.right = [] := drop_length
    have none_right : LeftAhead key next next.left.length := by simp [LeftAhead, no_right]
    have same : (next.takeLeft next.left.length).arranged =
        merge.finish (merge.right ++ merge.left) := by
      unfold arranged finish
      cases is_up : merge.direction <;> simp [next, Merge.takeLeft, Merge.takeRight, is_up]
    have moves := (moves_takeRight all_lose).trans (moves_takeLeft fun _ => none_right)
    exact same ▸ ⟨moves, fun is_honest => (((underway is_honest).takeRight
      (all_lose is_honest)).takeLeft none_right).ordered drop_length no_right⟩

/-- How many more steps a merge takes at most. -/
def remaining (merge : Merge α) : Nat :=
  2 * (merge.left.length + merge.right.length) +
    match merge.pace with
    | .stretched _ => 1
    | _ => 0

theorem remaining_bounds (merge : Merge α) :
    2 * (merge.left.length + merge.right.length) ≤ merge.remaining ∧
      merge.remaining ≤ 2 * (merge.left.length + merge.right.length) + 1 := by
  unfold remaining
  split <;> omega

theorem remaining_lt {merge next : Merge α}
    (fewer : next.left.length + next.right.length < merge.left.length + merge.right.length) :
    next.remaining < merge.remaining := by
  have := next.remaining_bounds
  have := merge.remaining_bounds
  omega

variable (key honest) in
/-- A merge goes on as another one. -/
structure Advances (merge next : Merge α) : Prop where
  underway : honest → Underway key next
  moves : Moves key honest merge.arranged next.arranged
  remaining : next.remaining < merge.remaining

theorem Underway.withPace (underway : Underway key merge) (pace : Pace) :
    Underway key { merge with pace } := ⟨underway.left, underway.right, underway.up, underway.down⟩

theorem advances_weigh (underway : honest → Underway key merge) {length}
    (is_pace : merge.pace = .stretched length) :
    Advances key honest merge (merge.weigh length) := by
  have last_step : merge.remaining = 2 * (merge.left.length + merge.right.length) + 1 := by
    rw [Merge.remaining, is_pace]
  rw [Merge.weigh]
  split
  all_goals exact
    ⟨fun is_honest => have ⟨left, right, up, down⟩ := underway is_honest
      ⟨left, right, up, down⟩, .refl _, last_step ▸ Nat.lt_succ_self _⟩

theorem settled?_ne_none
    (one_empty : ∀ left others right others', merge.left = left :: others →
      merge.right = right :: others' → False) : merge.settled? ≠ none := by
  unfold settled?
  cases is_left : merge.left with
  | nil => cases merge.direction <;> cases merge.right <;> simp
  | cons left others =>
    cases is_right : merge.right with
    | nil => cases merge.direction <;> simp
    | cons right others' => exact (one_empty left others right others' is_left is_right).elim

end Merge

end Merges

end Vimlet.Sorting
