import Mathlib.Order.Nat
import Vimlet.Proofs.Sorting.Keys

/-!
# What sorting does to its elements

A sort only rearranges its elements, also if a comparison stops it. If it compares by keys, it puts
them in the order of their keys and leaves those with the same key in their order. `Judgement` lists
what has to be shown of searches and of steps of a sort by any effectful comparison.
-/

namespace Vimlet.Sorting

open List Merge

variable {m : Type → Type} [Monad m] {ε α κ : Type} [LinearOrder κ]
variable {honest : Prop} {items all sorted : List α} {key : α → κ}
  {less less' : α → α → ExceptT ε m Bool} {pending : List (Pending α)}
  {passes passes' : Nat → ExceptT ε m Bool} {merge : Merge α} {first : α}

/-- An answer is the right one, if the comparison is honest. -/
def Tells (honest : Prop) (right answer : Bool) : Prop := honest → answer = right

theorem tells_false (right : Bool) : Tells False right = fun _ => True :=
  funext fun _ => eq_true False.elim

/-- Two searches, or two steps of a sort, are related and a result has a property. A step that stops
leaves an arrangement. -/
structure Judgement (search : ∀ β : Type, (β → Prop) → ExceptT ε m β → ExceptT ε m β → Prop)
    (sorting : ∀ β : Type, List α → (β → Prop) → ExceptT (Stopped ε α) m β →
      ExceptT (Stopped ε α) m β → Prop) : Prop where
  search_pure {β : Type} {post : β → Prop} {value} :
    post value → search β post (pure value) (pure value)
  search_bind {β γ : Type} {middle : β → Prop} {post : γ → Prop} {act act'}
    {next next' : β → ExceptT ε m γ} :
    search β middle act act' → (∀ value, middle value → search γ post (next value) (next' value)) →
    search γ post (act >>= next) (act' >>= next')
  sorting_pure {β : Type} {items} {post : β → Prop} {value} :
    post value → sorting β items post (pure value) (pure value)
  sorting_bind {β γ : Type} {items} {middle : β → Prop} {post : γ → Prop}
    {act act'} {next next' : β → ExceptT (Stopped ε α) m γ} : sorting β items middle act act' →
    (∀ value, middle value → sorting γ items post (next value) (next' value)) →
    sorting γ items post (act >>= next) (act' >>= next')
  among {β : Type} {post : β → Prop} {act act' items} (arranged : Unit → List α) :
    (arranged ()).Perm items → search β post act act' →
    sorting β items post (among arranged act) (among arranged act')
  within {β : Type} {post : β → Prop} {act act' before part after items} :
    (before ++ part ++ after).Perm items → sorting β part post act act' →
    sorting β items post (within before after act) (within before after act')

namespace Judgement

variable {search : ∀ β : Type, (β → Prop) → ExceptT ε m β → ExceptT ε m β → Prop}
  {sorting : ∀ β : Type, List α → (β → Prop) → ExceptT (Stopped ε α) m β →
    ExceptT (Stopped ε α) m β → Prop}
  (judgement : Judgement search sorting)
include judgement

/-! ### Searches -/

section Searches

variable {has : α → Bool} (closed : honest → items.Pairwise fun a b => has b = true → has a = true)
include closed

theorem bisect (asked : ∀ i, search Bool (Tells honest (items[i]?.any has)) (passes i) (passes' i))
    (direction : Direction) (low high : Nat) (below : honest → ∀ i < low, items[i]?.any has = true)
    (above : honest → ∀ i, high ≤ i → items[i]?.any has = false) :
    search Nat (fun count => honest → Divides has items count) (bisect passes direction low high)
      (bisect passes' direction low high) := by
  induction low, high using bisect.induct direction with
  | case1 low high nonempty middle upper lower =>
    rw [bisect.eq_def passes, bisect.eq_def passes', dif_pos nonempty, dif_pos nonempty]
    refine judgement.search_bind (asked _) fun answer tells => ?_
    cases answer with
    | true => exact upper (fun is_honest => any_until (closed is_honest) (tells is_honest)) above
    | false => exact lower below fun is_honest => any_from (closed is_honest) (tells is_honest)
  | case2 low high empty =>
    rw [bisect.eq_def passes, bisect.eq_def passes', dif_neg empty, dif_neg empty]
    refine judgement.search_pure fun is_honest => divides_of_iff fun i =>
      ⟨fun has_i => ?_, below is_honest i⟩
    by_contra beyond
    rw [above is_honest i (by omega)] at has_i
    cases has_i

theorem gallopFrom
    (asked : ∀ i, search Bool (Tells honest (items[i]?.any has)) (passes i) (passes' i))
    (direction : Direction) (size low probe : Nat)
    (below : honest → ∀ i < low, items[i]?.any has = true)
    (above : honest → ∀ i, size ≤ i → items[i]?.any has = false) :
    search Nat (fun count => honest → Divides has items count)
      (gallopFrom passes direction size low probe)
      (gallopFrom passes' direction size low probe) := by
  induction low, probe using gallopFrom.induct size with
  | case1 low probe inside further =>
    rw [gallopFrom.eq_def passes, gallopFrom.eq_def passes', dif_pos inside, dif_pos inside]
    refine judgement.search_bind (asked probe) fun answer tells => ?_
    cases answer with
    | true => exact further fun is_honest => any_until (closed is_honest) (tells is_honest)
    | false =>
      exact judgement.bisect closed asked direction low probe below fun is_honest =>
        any_from (closed is_honest) (tells is_honest)
  | case2 low probe beyond =>
    rw [gallopFrom.eq_def passes, gallopFrom.eq_def passes', dif_neg beyond, dif_neg beyond]
    exact judgement.bisect closed asked direction low size below above

theorem gallop {passes passes' : α → ExceptT ε m Bool}
    (asked : ∀ item ∈ items, search Bool (Tells honest (has item)) (passes item) (passes' item))
    (direction : Direction) :
    search Nat (fun count => honest → Divides has items count) (gallop passes direction items)
      (gallop passes' direction items) := by
  refine judgement.gallopFrom closed (fun i => ?_) direction _ 0 0 (by simp) (by simp +contextual)
  unfold gallop.passesAt
  split
  · rename_i item found
    rw [found]
    exact asked item (mem_of_getElem? found)
  · rename_i beyond
    rw [beyond]
    exact judgement.search_pure fun _ => rfl

end Searches

variable
  (asked : ∀ a ∈ all, ∀ b ∈ all,
    search Bool (Tells honest (decide (key a < key b))) (less a b) (less' a b))
include asked

theorem placeOf {item} (item_mem : item ∈ all) (subset : sorted ⊆ all)
    (ordered : honest → Ordered key sorted) :
    search Nat
      (fun count => honest → Divides (fun other => !decide (key item < key other)) sorted count)
      (placeOf less item sorted) (placeOf less' item sorted) := by
  have closed (is_honest : honest) : sorted.Pairwise fun a b =>
      (!decide (key item < key b)) = true → (!decide (key item < key a)) = true :=
    (ordered is_honest).imp fun le not_lt => by simpa using le.trans (by simpa using not_lt)
  refine judgement.bisect closed (fun i => ?_) .upward 0 _ (by simp) (by simp +contextual)
  unfold placeOf.notGreaterAt
  split
  · rename_i other found
    rw [found]
    exact judgement.search_bind (asked _ item_mem _ (subset (mem_of_getElem? found)))
      fun _ tells => judgement.search_pure fun is_honest => congrArg _ (tells is_honest)
  · rename_i beyond
    rw [beyond]
    exact judgement.search_pure fun _ => rfl

variable (direction : Direction) {left right : α}

theorem leftFirst (right_mem : right ∈ all) (left_mem : left ∈ all) :
    search Bool (Tells honest (wins key direction right left))
      (Merge.leftFirst less direction right left) (Merge.leftFirst less' direction right left) :=
  judgement.search_bind (asked _ right_mem _ left_mem) fun _ tells =>
    judgement.search_pure fun is_honest => by rw [tells is_honest, wins]

theorem leftStretch {left} (right_mem : right ∈ all) (subset : left ⊆ all)
    (ordered : honest → left.Pairwise (direction.NoLater key)) :
    search Nat (fun count => honest → Divides (wins key direction right) left count)
      (Merge.leftStretch less direction right left)
      (Merge.leftStretch less' direction right left) :=
  judgement.gallop (fun is_honest => (ordered is_honest).imp fun later win =>
      wins_of_noLater_left win later)
    (fun _ mem => judgement.leftFirst asked direction right_mem (subset mem)) direction

theorem rightStretch {right} (left_mem : left ∈ all) (subset : right ⊆ all)
    (ordered : honest → right.Pairwise (direction.NoLater key)) :
    search Nat
      (fun count => honest → Divides (fun item => !wins key direction item left) right count)
      (Merge.rightStretch less direction left right)
      (Merge.rightStretch less' direction left right) := by
  refine judgement.gallop (fun is_honest => (ordered is_honest).imp fun {a b} later lose => ?_)
    (fun _ mem => judgement.search_bind
      (judgement.leftFirst asked direction (subset mem) left_mem) fun _ tells =>
        judgement.search_pure fun is_honest => congrArg not (tells is_honest)) direction
  by_contra win
  rw [wins_of_noLater_right (by simpa using win) later] at lose
  cases lose

end Judgement

theorem perm_replace {before part other after : List α} (same : other.Perm part)
    (whole : (before ++ part ++ after).Perm items) : (before ++ other ++ after).Perm items :=
  ((same.append_left before).append_right after).trans whole

theorem part_subset {before part after} (whole : (before ++ part ++ after).Perm items)
    (subset : items ⊆ all) : part ⊆ all :=
  fun _ mem => subset (whole.subset (mem_append_left _ (mem_append_right _ mem)))

theorem stacked_cons (last : Pending α) (pending : List (Pending α)) :
    stacked (last :: pending) = stacked pending ++ last.items := by
  simp [stacked]

/-- The pending runs are an arrangement of elements, and each of them is in order, if the comparison
is an honest one. -/
def Stacks (key : α → κ) (honest : Prop) (items : List α) (pending : List (Pending α)) : Prop :=
  Moves key honest items (stacked pending) ∧ ∀ run ∈ pending, honest → Ordered key run.items

namespace Judgement

variable {search : ∀ β : Type, (β → Prop) → ExceptT ε m β → ExceptT ε m β → Prop}
  {sorting : ∀ β : Type, List α → (β → Prop) → ExceptT (Stopped ε α) m β →
    ExceptT (Stopped ε α) m β → Prop}
  (judgement : Judgement search sorting)
  (asked : ∀ a ∈ all, ∀ b ∈ all,
    search Bool (Tells honest (decide (key a < key b))) (less a b) (less' a b))
include judgement asked
variable {rest left right : List α}

/-! ### Merges -/

theorem step (subset : merge.arranged ⊆ all) (underway : honest → Underway key merge)
    (unsettled : merge.settled? = none) :
    search (Merge α) (Advances key honest merge) (merge.step less) (merge.step less') := by
  obtain ⟨left_subset, right_subset⟩ := merge.runs_subset subset
  have left_ordered (is_honest : honest) :=
    (pairwise_append.mp (underway is_honest).left).2.1
  have right_ordered (is_honest : honest) :=
    (pairwise_append.mp (underway is_honest).right).2.1
  unfold Merge.step
  split
  · rename_i left _ right _ is_left is_right
    have left_mem : left ∈ all := left_subset (is_left ▸ mem_cons_self)
    have right_mem : right ∈ all := right_subset (is_right ▸ mem_cons_self)
    split
    · refine judgement.search_bind (judgement.leftFirst asked _ right_mem left_mem)
        fun answer tells => ?_
      cases answer with
      | true =>
        have win (is_honest : honest) : LeftAhead key merge 1 := by
          simpa [LeftAhead, is_left] using
            (underway is_honest).win_all is_right (tells is_honest).symm
        refine judgement.search_pure ⟨fun is_honest =>
          ((underway is_honest).takeLeft (win is_honest)).withPace _, moves_takeLeft win,
          remaining_lt ?_⟩
        simp [takeLeft, is_left]
      | false =>
        have lose (is_honest : honest) : RightAhead key merge 1 := by
          simpa [RightAhead, is_right] using
            (underway is_honest).lose_all is_left (tells is_honest).symm
        refine judgement.search_pure ⟨fun is_honest =>
          ((underway is_honest).takeRight (lose is_honest)).withPace _,
          moves_takeRight lose, remaining_lt ?_⟩
        simp [takeRight, is_right]
    · refine judgement.search_bind
        (judgement.leftStretch asked _ right_mem left_subset left_ordered)
        fun count divides => judgement.search_pure ?_
      have win (is_honest : honest) : LeftAhead key merge count := fun x mem =>
        (underway is_honest).win_all is_right ((divides is_honest).1 x mem)
      have lose (is_honest : honest) : RightAhead key (merge.takeLeft count) 1 := by
        simpa [RightAhead, takeLeft, is_right] using (divides is_honest).2
      refine ⟨fun is_honest => (((underway is_honest).takeLeft (win is_honest)).takeRight
        (lose is_honest)).withPace _, (moves_takeLeft win).trans
          (moves_takeRight lose), remaining_lt ?_⟩
      simp [takeLeft, takeRight, is_right]
      omega
    · refine judgement.search_bind
        (judgement.rightStretch asked _ left_mem right_subset right_ordered)
        fun count divides => judgement.search_pure ?_
      have lose (is_honest : honest) : RightAhead key merge count := fun y mem =>
        (underway is_honest).lose_all is_left (by simpa using (divides is_honest).1 y mem)
      have win (is_honest : honest) : LeftAhead key (merge.takeRight count) 1 := by
        simpa [LeftAhead, takeRight, is_left] using (divides is_honest).2
      refine ⟨fun is_honest => (((underway is_honest).takeRight (lose is_honest)).takeLeft
        (win is_honest)).withPace _, (moves_takeRight lose).trans
          (moves_takeLeft win), remaining_lt ?_⟩
      simp [takeLeft, takeRight, is_left]
      omega
    · rename_i length is_pace
      exact judgement.search_pure (advances_weigh underway is_pace)
  · rename_i one_empty
    exact absurd unsettled (settled?_ne_none one_empty)

theorem steps (fuel : Nat) (moves : Moves key honest items merge.arranged) (subset : items ⊆ all)
    (underway : honest → Underway key merge) (enough : merge.remaining ≤ fuel) :
    sorting _ items (fun result => Sorts key honest items result.1) (Merge.steps less fuel merge)
      (Merge.steps less' fuel merge) := by
  induction fuel generalizing merge with
  | zero =>
    have := merge.remaining_bounds
    refine judgement.sorting_pure ⟨moves, fun is_honest => (underway is_honest).ordered ?_ ?_⟩
    all_goals exact length_eq_zero_iff.mp (by omega)
  | succ fuel ih =>
    unfold Merge.steps
    split
    · rename_i rest settled
      exact judgement.sorting_pure (moves.sorts (sorts_settled underway settled))
    · rename_i unsettled
      have stepped := judgement.step asked (Subset.trans moves.perm.symm.subset subset)
        underway unsettled
      refine judgement.sorting_bind (judgement.among _ moves.perm.symm stepped)
        fun next advances => ?_
      have fewer := advances.remaining
      exact ih (moves.trans advances.moves) advances.underway (by omega)

/-- Two runs are merged of which the first element of the right one comes first and the last element
of the left one comes last. -/
theorem interleave (threshold : Nat) (subset : left ++ right ⊆ all)
    (left_ordered : honest → Ordered key left) (right_ordered : honest → Ordered key right)
    (first : honest → ∀ y ∈ right.head?, ∀ x ∈ left, key y < key x)
    (last : honest → ∀ x ∈ left.getLast?, ∀ y ∈ right, key y < key x) :
    sorting _ (left ++ right) (fun result => Sorts key honest (left ++ right) result.1)
      (Merge.interleave less threshold left right)
      (Merge.interleave less' threshold left right) := by
  unfold Merge.interleave
  dsimp only
  split
  · let merge : Merge α := { direction := .upward, left, right, threshold }
    have underway (is_honest : honest) : Underway key merge :=
      ⟨left_ordered is_honest, right_ordered is_honest, fun _ => last is_honest, by simp [merge]⟩
    have lose (is_honest : honest) : RightAhead key merge 1 := by
      intro y mem x x_mem
      have is_head : y ∈ right.head? := by simpa [merge, take_one] using mem
      exact loses_upward.mpr (first is_honest y is_head x x_mem)
    refine judgement.steps asked _ (moves_takeRight lose) subset
      (fun is_honest => (underway is_honest).takeRight (lose is_honest)) ?_
    simp only [remaining, takeRight, length_drop]
    omega
  · let merge : Merge α :=
      { direction := .downward, left := left.reverse, right := right.reverse, threshold }
    have underway (is_honest : honest) : Underway key merge := by
      refine ⟨pairwise_reverse.mpr (left_ordered is_honest),
        pairwise_reverse.mpr (right_ordered is_honest), by simp [merge],
        fun _ y is_last x mem => first is_honest y ?_ x (mem_reverse.mp mem)⟩
      rwa [getLast?_reverse] at is_last
    have win (is_honest : honest) : LeftAhead key merge 1 := by
      intro x mem y y_mem
      have is_last : x ∈ left.getLast? := by simpa [merge, take_one] using mem
      exact wins_downward.mpr (last is_honest x is_last y (mem_reverse.mp y_mem))
    have arranged_eq : merge.arranged = left ++ right := by simp [merge, Merge.arranged]
    refine judgement.steps asked _ (arranged_eq ▸ moves_takeLeft win) subset
      (fun is_honest => (underway is_honest).takeLeft (win is_honest)) ?_
    simp only [remaining, takeLeft, length_drop, length_reverse]
    omega

/-- Two runs that are in order become one. -/
theorem mergeRuns (threshold : Nat) (moves : Moves key honest items (left ++ right))
    (subset : items ⊆ all) (left_ordered : honest → Ordered key left)
    (right_ordered : honest → Ordered key right) :
    sorting _ items (fun result => Sorts key honest items result.1)
      (mergeRuns less threshold left right) (mergeRuns less' threshold left right) := by
  obtain ⟨left_subset, right_subset⟩ := append_subset.mp
    (Subset.trans moves.perm.symm.subset subset)
  unfold Sorting.mergeRuns
  split
  · rw [append_nil] at moves
    exact judgement.sorting_pure ⟨moves, left_ordered⟩
  · rename_i first rest
    have first_mem : first ∈ all := right_subset mem_cons_self
    have first_le (is_honest : honest) : ∀ y ∈ first :: rest, key first ≤ key y := fun y mem =>
      (right_ordered is_honest).first_le mem rfl
    have is_first : (first :: rest).head? = some first := rfl
    generalize first :: rest = right at *
    refine judgement.sorting_bind (judgement.among _ moves.perm.symm
      (judgement.leftStretch asked .upward first_mem left_subset left_ordered))
      fun front divides => ?_
    have front_le (is_honest : honest) : ∀ x ∈ left.take front, key x ≤ key first := fun x mem =>
      wins_upward.mp ((divides is_honest).1 x mem)
    have parts := take_append_drop front left
    have inner_ordered (is_honest : honest) : Ordered key (left.drop front) :=
      (left_ordered is_honest).sublist (drop_sublist front left)
    split
    · rename_i none_left
      rw [getLast?_eq_none_iff] at none_left
      rw [none_left, append_nil] at parts
      rw [parts] at front_le
      exact judgement.sorting_pure ⟨moves, fun is_honest => (left_ordered is_honest).append
        (right_ordered is_honest) fun x x_mem y y_mem =>
          (front_le is_honest x x_mem).trans (first_le is_honest y y_mem)⟩
    · rename_i last is_last
      have last_mem : last ∈ all :=
        left_subset (mem_of_mem_drop (mem_of_getLast? is_last))
      refine judgement.sorting_bind (judgement.among _ moves.perm.symm
        (judgement.rightStretch asked .downward last_mem
          (fun item mem => right_subset (mem_reverse.mp mem))
          fun is_honest => pairwise_reverse.mpr (right_ordered is_honest)))
        fun back divides' => ?_
      rw [Divides, take_reverse, drop_reverse] at divides'
      dsimp only
      generalize right.length - back = kept at divides' ⊢
      have last_le (is_honest : honest) : ∀ y ∈ right.drop kept, key last ≤ key y := fun y mem =>
        loses_downward.mp
          (by simpa using (divides' is_honest).1 y (mem_reverse.mpr mem))
      have inner_le (is_honest : honest) :
          ∀ x ∈ left.drop front, ∀ y ∈ right.drop kept, key x ≤ key y := fun x x_mem y y_mem =>
        ((inner_ordered is_honest).le_last x_mem is_last).trans (last_le is_honest y y_mem)
      split
      · rename_i none_kept
        rw [none_kept, drop_zero] at inner_le
        refine judgement.sorting_pure ⟨moves, fun is_honest => (left_ordered is_honest).append
          (right_ordered is_honest) fun x x_mem y y_mem => ?_⟩
        rw [← parts, mem_append] at x_mem
        obtain front | inner := x_mem
        · exact (front_le is_honest x front).trans (first_le is_honest y y_mem)
        · exact inner_le is_honest x inner y y_mem
      · rename_i some_kept
        have first_kept : (right.take kept).head? = some first := by
          rw [head?_take, if_neg some_kept, is_first]
        have kept_ordered (is_honest : honest) :=
          (right_ordered is_honest).sublist (take_sublist kept right)
        have whole : Moves key honest items
            (left.take front ++ (left.drop front ++ right.take kept) ++ right.drop kept) := by
          refine .trans moves (.of_eq ?_)
          simp only [append_assoc, take_append_drop]
          rw [← append_assoc, take_append_drop]
        have merging := judgement.interleave asked threshold
          (part_subset whole.perm.symm subset) inner_ordered kept_ordered
          (fun is_honest y is_head x mem => ?_) fun is_honest x is_x y mem => ?_
        · refine judgement.sorting_bind (judgement.within whole.perm.symm merging)
            fun result done => judgement.sorting_pure ?_
          rw [← append_assoc]
          have right_parts := take_append_drop kept right
          refine ⟨whole.part done.toMoves, fun is_honest => .merged (parts.symm ▸
            left_ordered is_honest) (right_parts.symm ▸ right_ordered is_honest)
            (done.ordered is_honest) done.perm (fun x x_mem y y_mem => ?_) (inner_le is_honest)⟩
          exact (front_le is_honest x x_mem).trans (first_le is_honest y (right_parts ▸ y_mem))
        · rw [first_kept] at is_head
          exact Option.some.inj is_head ▸ loses_upward.mp ((divides is_honest).2 x mem)
        · rw [is_last] at is_x
          exact Option.some.inj is_x ▸ wins_downward.mp
            (by simpa using (divides' is_honest).2 y (mem_reverse.mpr mem))

/-! ### Runs -/

theorem takeRun (descending : Bool) {last run} (whole : run.reverse ++ last :: rest = items)
    (subset : items ⊆ all)
    (falls : honest → (last :: run).Pairwise fun a b => decide (key a < key b) = descending) :
    search _ (fun result => result.1.reverse ++ result.2 = items ∧ result.1 ≠ [] ∧
        (honest → result.1.Pairwise fun a b => decide (key a < key b) = descending))
      (takeRun less descending last run rest) (takeRun less' descending last run rest) := by
  induction rest generalizing last run with
  | nil => exact judgement.search_pure ⟨by simpa using whole, cons_ne_nil _ _, falls⟩
  | cons next rest ih =>
    have last_mem : last ∈ all := subset (whole ▸ by simp)
    have next_mem : next ∈ all := subset (whole ▸ by simp)
    refine judgement.search_bind (asked next next_mem last last_mem) fun answer tells => ?_
    split
    · rename_i goes_on
      refine ih (by simpa using whole) fun is_honest => ?_
      have next_last := (tells is_honest).symm.trans (eq_of_beq goes_on)
      have falls := falls is_honest
      refine pairwise_cons.mpr ⟨forall_mem_cons.mpr ⟨next_last, fun b mem => ?_⟩, falls⟩
      have last_b := (pairwise_cons.mp falls).1 b mem
      cases descending with
      | true => simpa using (of_decide_eq_true next_last).trans (of_decide_eq_true last_b)
      | false => simpa using le_trans (by simpa using last_b) (by simpa using next_last)
    · exact judgement.search_pure ⟨by simpa using whole, cons_ne_nil _ _, falls⟩

theorem firstRun (subset : first :: rest ⊆ all) :
    search _ (fun result => result.1 ≠ [] ∧ (honest → Ordered key result.1) ∧
        Moves key honest (first :: rest) (result.1 ++ result.2))
      (firstRun less first rest) (firstRun less' first rest) := by
  cases rest with
  | nil =>
    exact judgement.search_pure
      ⟨cons_ne_nil _ _, fun _ => pairwise_singleton _ _, .refl _⟩
  | cons second rest =>
    have first_mem : first ∈ all := subset (by simp)
    have second_mem : second ∈ all := subset (by simp)
    refine judgement.search_bind (asked second second_mem first first_mem)
      fun descending tells => ?_
    have two (is_honest : honest) : [second, first].Pairwise fun a b =>
        decide (key a < key b) = descending := by simp [tells is_honest]
    refine judgement.search_bind (judgement.takeRun asked descending rfl subset two)
      fun result found => judgement.search_pure ?_
    obtain ⟨run, after⟩ := result
    obtain ⟨whole, nonempty, falls⟩ := found
    have whole : run.reverse ++ after = first :: second :: rest := whole
    dsimp only
    rw [← whole]
    cases descending with
    | true =>
      have rises (is_honest : honest) : run.Pairwise fun a b => key a < key b :=
        (falls is_honest).imp of_decide_eq_true
      exact ⟨nonempty, fun is_honest => (rises is_honest).imp le_of_lt,
        (Moves.reverse fun is_honest => (rises is_honest).imp ne_of_lt).append (.refl _)⟩
    | false =>
      exact ⟨reverse_ne_nil_iff.mpr nonempty, fun is_honest => pairwise_reverse.mpr
        ((falls is_honest).imp fun le => by simpa using le), .refl _⟩

theorem insertAll (moves : Moves key honest items (sorted ++ rest)) (subset : items ⊆ all)
    (ordered : honest → Ordered key sorted) :
    sorting _ items (Sorts key honest items) (insertAll less sorted rest)
      (insertAll less' sorted rest) := by
  induction rest generalizing sorted with
  | nil =>
    rw [append_nil] at moves
    exact judgement.sorting_pure ⟨moves, ordered⟩
  | cons item rest ih =>
    have item_mem : item ∈ all := subset (moves.perm.symm.subset (by simp))
    have sorted_subset : sorted ⊆ all := fun other mem =>
      subset (moves.perm.symm.subset (mem_append_left _ mem))
    refine judgement.sorting_bind (judgement.among _ moves.perm.symm
      (judgement.placeOf asked item_mem sorted_subset ordered)) fun place divides => ?_
    have parts := take_append_drop place sorted
    have front_le (is_honest : honest) : ∀ a ∈ sorted.take place, key a ≤ key item :=
      fun a mem => by simpa using (divides is_honest).1 a mem
    have lt_back (is_honest : honest) : ∀ b ∈ sorted.drop place, key item < key b :=
      fun b mem => by simpa using (divides is_honest).2 b mem
    generalize sorted.take place = front, sorted.drop place = back at *
    subst parts
    refine ih (moves.trans (.insert lt_back)) fun is_honest => ?_
    obtain ⟨front_ordered, back_ordered, across⟩ := pairwise_append.mp (ordered is_honest)
    refine .append front_ordered (pairwise_cons.mpr
      ⟨fun b mem => le_of_lt (lt_back is_honest b mem), back_ordered⟩) fun a a_mem => ?_
    exact forall_mem_cons.mpr ⟨front_le is_honest a a_mem, across a a_mem⟩

theorem nextRun (least : Nat) (subset : first :: rest ⊆ all) :
    sorting _ (first :: rest)
      (fun result => result.1 ≠ [] ∧ (honest → Ordered key result.1) ∧
        Moves key honest (first :: rest) (result.1 ++ result.2))
      (nextRun less least first rest) (nextRun less' least first rest) := by
  refine judgement.sorting_bind (judgement.among _ (.refl _) (judgement.firstRun asked subset))
    fun found => ?_
  rintro ⟨nonempty, ordered, moves⟩
  obtain ⟨run, after⟩ := found
  dsimp only at nonempty ordered moves ⊢
  generalize least - run.length = missing
  have whole : Moves key honest (first :: rest)
      ([] ++ (run ++ after.take missing) ++ after.drop missing) := by
    rwa [nil_append, append_assoc, take_append_drop]
  have inserting := judgement.insertAll asked (.refl _) (part_subset whole.perm.symm subset) ordered
  refine judgement.sorting_bind (judgement.within whole.perm.symm inserting)
    fun result done => judgement.sorting_pure ⟨?_, done.ordered, whole.part done.toMoves⟩
  rintro rfl
  exact nonempty (append_eq_nil_iff.mp done.perm.eq_nil).1

/-! ### Pending runs -/

theorem mergePending (threshold : Nat) {left right} (subset : left.items ++ right.items ⊆ all)
    (left_ordered : honest → Ordered key left.items)
    (right_ordered : honest → Ordered key right.items) :
    sorting _ (left.items ++ right.items)
      (fun result => Sorts key honest (left.items ++ right.items) result.1.items)
      (mergePending less threshold left right) (mergePending less' threshold left right) :=
  judgement.sorting_bind
    (judgement.mergeRuns asked threshold (.refl _) subset left_ordered right_ordered)
    fun _ done => judgement.sorting_pure done

theorem mergeAbove (power threshold : Nat) {last}
    (stacked : Stacks key honest items (last :: pending)) (subset : items ⊆ all) :
    sorting _ items (fun result => Stacks key honest items result.1)
      (mergeAbove less power threshold last pending)
      (mergeAbove less' power threshold last pending) := by
  obtain ⟨moves, ordered⟩ := stacked
  induction pending generalizing threshold last with
  | nil => exact judgement.sorting_pure ⟨moves, by simpa using ordered⟩
  | cons before pending ih =>
    obtain ⟨last_ordered, others⟩ := forall_mem_cons.mp ordered
    obtain ⟨before_ordered, pending_ordered⟩ := forall_mem_cons.mp others
    unfold Sorting.mergeAbove
    split
    · have whole : Moves key honest items
          (stacked pending ++ (before.items ++ last.items) ++ []) := by
        simpa only [stacked_cons, append_assoc, append_nil] using moves
      have merging := judgement.mergePending asked threshold
        (part_subset whole.perm.symm subset) before_ordered last_ordered
      refine judgement.sorting_bind (judgement.within whole.perm.symm merging)
        fun merged done => ih _ ?_ (forall_mem_cons.mpr ⟨done.ordered, pending_ordered⟩)
      simpa only [stacked_cons, append_nil] using whole.part done.toMoves
    · refine judgement.sorting_pure ⟨?_, forall_mem_cons.mpr ⟨last_ordered, others⟩⟩
      simpa only [stacked_cons] using moves

theorem mergeBefore (total next threshold : Nat) (subset : stacked pending ⊆ all)
    (ordered : ∀ run ∈ pending, honest → Ordered key run.items) :
    sorting _ (stacked pending) (fun result => Stacks key honest (stacked pending) result.1)
      (mergeBefore less total next threshold pending)
      (mergeBefore less' total next threshold pending) := by
  cases pending with
  | nil => exact judgement.sorting_pure ⟨.refl _, ordered⟩
  | cons last pending => exact judgement.mergeAbove asked _ _ ⟨.refl _, ordered⟩ subset

theorem mergeAll (fuel threshold : Nat) (enough : pending.length ≤ fuel)
    (stacked : Stacks key honest items pending) (subset : items ⊆ all) :
    sorting _ items (Sorts key honest items) (mergeAll less fuel threshold pending)
      (mergeAll less' fuel threshold pending) := by
  obtain ⟨moves, ordered⟩ := stacked
  induction fuel generalizing threshold pending with
  | zero =>
    obtain rfl := length_eq_zero_iff.mp (Nat.le_zero.mp enough)
    exact judgement.sorting_pure ⟨moves, fun _ => Pairwise.nil⟩
  | succ fuel ih =>
    match pending with
    | [] => exact judgement.sorting_pure ⟨moves, fun _ => Pairwise.nil⟩
    | [last] =>
      refine judgement.sorting_pure ⟨moves, fun is_honest => ?_⟩
      simpa [stacked] using ordered last mem_cons_self is_honest
    | [last, second] =>
      obtain ⟨last_ordered, others⟩ := forall_mem_cons.mp ordered
      have whole : Moves key honest items (second.items ++ last.items) := by
        simpa [stacked] using moves
      exact judgement.sorting_bind (judgement.sorting_bind (judgement.mergeRuns asked threshold
        whole subset (others second mem_cons_self) last_ordered) fun _ done =>
          judgement.sorting_pure done) fun _ done => judgement.sorting_pure done
    | last :: second :: third :: pending =>
      obtain ⟨last_ordered, others⟩ := forall_mem_cons.mp ordered
      obtain ⟨second_ordered, outer⟩ := forall_mem_cons.mp others
      obtain ⟨third_ordered, pending_ordered⟩ := forall_mem_cons.mp outer
      have fewer : (third :: last :: pending).length ≤ fuel := Nat.le_of_succ_le_succ enough
      unfold Sorting.mergeAll
      split
      · have whole : Moves key honest items
            (stacked pending ++ (third.items ++ second.items) ++ last.items) := by
          simpa only [stacked_cons, append_assoc] using moves
        have merging := judgement.mergePending asked threshold
          (part_subset whole.perm.symm subset) third_ordered second_ordered
        refine judgement.sorting_bind (judgement.within whole.perm.symm merging)
          fun merged done => ih _ fewer ?_ (forall_mem_cons.mpr ⟨last_ordered,
            forall_mem_cons.mpr ⟨done.ordered, pending_ordered⟩⟩)
        simpa only [stacked_cons] using whole.part done.toMoves
      · have whole : Moves key honest items
            (stacked (third :: pending) ++ (second.items ++ last.items) ++ []) := by
          simpa only [stacked_cons, append_assoc, append_nil] using moves
        have merging := judgement.mergePending asked threshold
          (part_subset whole.perm.symm subset) second_ordered last_ordered
        refine judgement.sorting_bind (judgement.within whole.perm.symm merging)
          fun merged done => ih _ fewer ?_ (forall_mem_cons.mpr ⟨done.ordered, outer⟩)
        simpa only [stacked_cons, append_nil] using whole.part done.toMoves

theorem gather (total fuel threshold start : Nat) (enough : rest.length ≤ fuel)
    (moves : Moves key honest items (stacked pending ++ rest)) (subset : items ⊆ all)
    (ordered : ∀ run ∈ pending, honest → Ordered key run.items) :
    sorting _ items (fun result => Stacks key honest items result.1)
      (gather less total fuel threshold start pending rest)
      (gather less' total fuel threshold start pending rest) := by
  induction fuel generalizing threshold start pending rest with
  | zero =>
    obtain rfl := length_eq_zero_iff.mp (Nat.le_zero.mp enough)
    rw [append_nil] at moves
    exact judgement.sorting_pure ⟨moves, ordered⟩
  | succ fuel ih =>
    cases rest with
    | nil =>
      rw [append_nil] at moves
      exact judgement.sorting_pure ⟨moves, ordered⟩
    | cons first rest =>
      have whole : Moves key honest items (stacked pending ++ first :: rest ++ []) := by
        rwa [append_nil]
      refine judgement.sorting_bind (judgement.within whole.perm.symm
        (judgement.nextRun asked _ (part_subset whole.perm.symm subset))) fun found => ?_
      rintro ⟨nonempty, run_ordered, run_moves⟩
      obtain ⟨run, after⟩ := found
      dsimp only at nonempty run_ordered run_moves ⊢
      have arranged : Moves key honest items ([] ++ stacked pending ++ (run ++ after)) := by
        simpa only [nil_append] using moves.trans ((Moves.refl _).append run_moves)
      refine judgement.sorting_bind (judgement.within arranged.perm.symm
        (judgement.mergeBefore asked _ _ _ (part_subset arranged.perm.symm subset) ordered))
        fun merged done => ih _ _ ?_ ?_ (forall_mem_cons.mpr ⟨run_ordered, done.2⟩)
      · have lengths := run_moves.perm.length_eq
        have := length_pos_iff.mpr nonempty
        simp only [length_append, length_cons] at lengths enough
        omega
      · simpa only [stacked_cons, nil_append, append_assoc] using
          arranged.part done.1

/-- A sort with related comparisons is related, and only rearranges. If the comparison goes by keys,
it puts the elements in their order, and those with the same key keep theirs. -/
theorem sort : sorting _ all (Sorts key honest all) (sort less all) (sort less' all) := by
  unfold Sorting.sort
  split
  · refine judgement.sorting_pure ⟨.refl _, fun _ => ?_⟩
    match all with
    | [] => exact Pairwise.nil
    | [_] => exact pairwise_singleton _ _
  · exact judgement.sorting_bind
      (judgement.gather asked _ _ _ _ (Nat.le_refl _) (.refl _) (Subset.refl _) (by simp))
      fun _ stacked => judgement.mergeAll asked _ _ (Nat.le_refl _) stacked (Subset.refl _)

omit asked in
theorem rearranges
    (asked : ∀ a ∈ all, ∀ b ∈ all, search Bool (fun _ => True) (less a b) (less' a b)) :
    sorting _ all (Sorts (fun _ => 0 : α → Nat) False all) (Sorting.sort less all)
      (Sorting.sort less' all) :=
  judgement.sort fun a a_mem b b_mem => tells_false _ ▸ asked a a_mem b b_mem

end Judgement

end Vimlet.Sorting
