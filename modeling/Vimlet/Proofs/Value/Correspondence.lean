import Vimlet.Proofs.Value.Trees

/-!
# Values of two heaps with the same contents

Two heaps that have grown out of one heap hold new containers in different cells. Their values
correspond if they are the same old value, or new containers whose contents correspond. Then they
have the same unfolding and the same tree, and so the same text.
-/

namespace Vimlet

open List Handle

variable {small big heap base left right left_later right_later : Heap}
  {handle first second : Handle} {depth cell more other_depth : Nat} {a b value : Value}
  {items others : List Value} {path other_path : List Handle}

/-- The container that a value stands for, if it does, is one of the heap. -/
def Value.In (heap : Heap) (value : Value) : Prop :=
  ∀ handle, value.handle? = some handle → handle.In heap

instance (heap : Heap) (handle : Handle) : Decidable (handle.In heap) := by
  cases handle <;> exact Nat.decLt ..

instance (heap : Heap) (value : Value) : Decidable (value.In heap) :=
  inferInstanceAs (Decidable (∀ handle ∈ value.handle?, handle.In heap))

/-- Every container in a container of the heap is one of the heap. -/
def Heap.Closed (heap : Heap) : Prop :=
  ∀ handle, ∀ value ∈ heap.contents handle, value.In heap

/-- The contents of a value down to a depth, with containers written out. -/
inductive Unfolding where
  | deeper
  | scalar (value : Value)
  | list (items : List Unfolding)
  | object (entries : List (String × Unfolding))

def Heap.unfold (heap : Heap) : Nat → Value → Unfolding
  | 0, _ => .deeper
  | depth + 1, .list cell => .list ((heap.list cell).map (heap.unfold depth))
  | depth + 1, .object cell =>
    .object ((heap.object cell).entries.map fun entry => (entry.1, heap.unfold depth entry.2))
  | _ + 1, value => .scalar value

/-- A heap in which the cells of another one have kept their contents. -/
structure Heap.Grows (small big : Heap) : Prop where
  lists (cell : Nat) (valid : cell < small.lists.size) : big.lists[cell]? = small.lists[cell]?
  objects (cell : Nat) (valid : cell < small.objects.size) :
    big.objects[cell]? = small.objects[cell]?

namespace Heap.Grows

variable {middle : Heap}

theorem refl (heap : Heap) : heap.Grows heap := ⟨fun _ _ => rfl, fun _ _ => rfl⟩

theorem handle_in (grows : small.Grows big) (handle : Handle) (valid : handle.In small) :
    handle.In big := by
  have lt_size {α : Type} {few many : Array α} {cell : Nat} (same : many[cell]? = few[cell]?)
      (valid : cell < few.size) : cell < many.size := by
    simpa [valid] using congrArg Option.isSome same
  cases handle with
  | list cell => exact lt_size (grows.lists cell valid) valid
  | object cell => exact lt_size (grows.objects cell valid) valid

theorem trans (first : small.Grows middle) (second : middle.Grows big) : small.Grows big where
  lists cell valid := by
    rw [second.lists cell (first.handle_in (.list cell) valid), first.lists cell valid]
  objects cell valid := by
    rw [second.objects cell (first.handle_in (.object cell) valid), first.objects cell valid]

theorem list_eq (grows : small.Grows big) (valid : cell < small.lists.size) :
    big.list cell = small.list cell := by
  simp only [Heap.list, Heap.listCell, grows.lists cell valid]

theorem object_eq (grows : small.Grows big) (valid : cell < small.objects.size) :
    big.object cell = small.object cell := by
  simp only [Heap.object, grows.objects cell valid]

theorem contents_eq (grows : small.Grows big) (valid : handle.In small) :
    big.contents handle = small.contents handle := by
  cases handle with
  | list cell => exact grows.list_eq valid
  | object cell => exact congrArg Table.values (grows.object_eq valid)

theorem pushList (heap : Heap) (cell : ListCell) :
    heap.Grows { heap with lists := heap.lists.push cell } where
  lists _ valid := (Array.getElem?_push_lt valid).trans (Array.getElem?_eq_getElem valid).symm
  objects _ _ := rfl

theorem pushObject (heap : Heap) (table : Table String Value) :
    heap.Grows { heap with objects := heap.objects.push table } where
  lists _ _ := rfl
  objects _ valid := (Array.getElem?_push_lt valid).trans (Array.getElem?_eq_getElem valid).symm

end Heap.Grows

theorem Heap.Grows.keys_eq (grows : small.Grows big) (valid : handle.In small) :
    big.keys handle = small.keys handle := by
  cases handle with
  | list cell => rfl
  | object cell => exact congrArg (some ·.keys) (grows.object_eq valid)

/-- Values of two heaps grown out of `base` have the same contents, with new containers nested at
most `depth` deep. -/
def CorrespondWithin (base left right : Heap) : Nat → Value → Value → Prop
  | 0, a, b => a = b ∧ a.In base
  | depth + 1, a, b =>
    (a = b ∧ a.In base) ∨
      ∃ first second, a.handle? = some first ∧ b.handle? = some second ∧
        (¬first.In base ∧ first.In left) ∧ (¬second.In base ∧ second.In right) ∧
        left.keys first = right.keys second ∧
        Forall₂ (CorrespondWithin base left right depth) (left.contents first)
          (right.contents second)

/-- Values of two heaps that have grown out of `base` are the same or have the same contents. -/
def Correspond (base left right : Heap) (a b : Value) : Prop :=
  ∃ depth, CorrespondWithin base left right depth a b

namespace CorrespondWithin

theorem old (old : a.In base) : (depth : Nat) → CorrespondWithin base left right depth a a
  | 0 => ⟨rfl, old⟩
  | _ + 1 => .inl ⟨rfl, old⟩

theorem succ (within : CorrespondWithin base left right depth a b) :
    CorrespondWithin base left right (depth + 1) a b := by
  induction depth generalizing a b with
  | zero => exact .inl within
  | succ depth ih =>
    obtain same | ⟨first, second, first_eq, second_eq, new_left, new_right, keys, contents⟩ :=
      within
    · exact .inl same
    · exact .inr ⟨first, second, first_eq, second_eq, new_left, new_right, keys,
        contents.imp fun _ _ => ih⟩

theorem mono (le : depth ≤ more) (within : CorrespondWithin base left right depth a b) :
    CorrespondWithin base left right more a b := by
  induction le with
  | refl => exact within
  | step _ ih => exact ih.succ

theorem grow (left_grows : left.Grows left_later) (right_grows : right.Grows right_later)
    (within : CorrespondWithin base left right depth a b) :
    CorrespondWithin base left_later right_later depth a b := by
  induction depth generalizing a b with
  | zero => exact within
  | succ depth ih =>
    obtain same | ⟨first, second, first_eq, second_eq, new_left, new_right, keys, contents⟩ :=
      within
    · exact .inl same
    · refine .inr ⟨first, second, first_eq, second_eq,
        ⟨new_left.1, left_grows.handle_in _ new_left.2⟩,
        ⟨new_right.1, right_grows.handle_in _ new_right.2⟩, ?_, ?_⟩
      · rw [left_grows.keys_eq new_left.2, right_grows.keys_eq new_right.2, keys]
      · rw [left_grows.contents_eq new_left.2, right_grows.contents_eq new_right.2]
        exact contents.imp fun _ _ => ih

end CorrespondWithin

namespace Correspond

theorem old (old : a.In base) : Correspond base left right a a := ⟨0, .old old 0⟩

theorem grow (left_grows : left.Grows left_later) (right_grows : right.Grows right_later)
    (same : Correspond base left right a b) : Correspond base left_later right_later a b := by
  obtain ⟨depth, within⟩ := same
  exact ⟨depth, within.grow left_grows right_grows⟩

theorem exists_within (same : Forall₂ (Correspond base left right) items others) :
    ∃ depth, Forall₂ (CorrespondWithin base left right depth) items others := by
  induction same with
  | nil => exact ⟨0, .nil⟩
  | cons head _ ih =>
    obtain ⟨head_depth, head_within⟩ := head
    obtain ⟨rest_depth, rest_within⟩ := ih
    refine ⟨max head_depth rest_depth, .cons (head_within.mono (le_max_left _ _)) ?_⟩
    exact rest_within.imp fun _ _ within => within.mono (le_max_right _ _)

theorem new (first_eq : a.handle? = some first) (second_eq : b.handle? = some second)
    (new_left : ¬first.In base ∧ first.In left) (new_right : ¬second.In base ∧ second.In right)
    (keys : left.keys first = right.keys second)
    (contents : Forall₂ (Correspond base left right) (left.contents first)
      (right.contents second)) : Correspond base left right a b := by
  obtain ⟨depth, contents_within⟩ := exists_within contents
  exact ⟨depth + 1, .inr ⟨first, second, first_eq, second_eq, new_left, new_right, keys,
    contents_within⟩⟩

/-- Values that correspond are the same old value, or new containers. -/
theorem cases (same : Correspond base left right a b) :
    (a = b ∧ a.In base) ∨
      ∃ first second, a.handle? = some first ∧ b.handle? = some second ∧
        ¬first.In base ∧ ¬second.In base ∧ left.keys first = right.keys second ∧
        Forall₂ (Correspond base left right) (left.contents first)
          (right.contents second) := by
  obtain ⟨depth, within⟩ := same
  cases depth with
  | zero => exact .inl within
  | succ depth =>
    obtain same | ⟨first, second, first_eq, second_eq, new_left, new_right, keys, contents⟩ :=
      within
    · exact .inl same
    · exact .inr ⟨first, second, first_eq, second_eq, new_left.1, new_right.1, keys,
        contents.imp fun _ _ within => ⟨depth, within⟩⟩

theorem eq_or_containers (same : Correspond base left right a b) :
    a = b ∨ a.handle?.isSome ∧ b.handle?.isSome := by
  obtain ⟨rfl, _⟩ | ⟨first, second, first_eq, second_eq, _⟩ := same.cases
  · exact .inl rfl
  · exact .inr ⟨by simp [first_eq], by simp [second_eq]⟩

theorem eq_of_scalar (same : Correspond base left right a b) (scalar : a.handle? = none) :
    a = b := by
  obtain eq | ⟨container, _⟩ := same.eq_or_containers
  · exact eq
  · simp [scalar] at container

end Correspond

theorem Value.in_of_scalar (scalar : value.handle? = none) : value.In heap := by
  intro handle handle_eq
  rw [scalar] at handle_eq
  cases handle_eq

/-- Entries with one key and values that are related. -/
def SameEntry (related : Value → Value → Prop) (entry other : String × Value) : Prop :=
  entry.1 = other.1 ∧ related entry.2 other.2

theorem forall₂_sameEntry {related : Value → Value → Prop} {entries others}
    (keys : entries.map (·.1) = others.map (·.1))
    (values : Forall₂ related (entries.map (·.2)) (others.map (·.2))) :
    Forall₂ (SameEntry related) entries others := by
  induction entries generalizing others with
  | nil =>
    rw [map_nil, nil_eq, map_eq_nil_iff] at keys
    rw [keys]
    exact .nil
  | cons entry entries ih =>
    cases others with
    | nil => cases keys
    | cons other others =>
      obtain ⟨key_eq, keys_eq⟩ := List.cons.inj keys
      cases values with
      | cons head rest => exact .cons ⟨key_eq, head⟩ (ih keys_eq rest)

/-- Two heaps have grown out of a heap whose values lead to its own containers only. -/
structure Twins (base left right : Heap) : Prop where
  closed : base.Closed
  left_grows : base.Grows left
  right_grows : base.Grows right

namespace Twins

variable (twins : Twins base left right)
include twins

/-- The contents of containers that correspond do so too. -/
theorem contents (same : Correspond base left right a b) (first : Handle)
    (first_eq : a.handle? = some first) :
    ∃ second, b = second.value ∧ left.keys first = right.keys second ∧
      Forall₂ (Correspond base left right) (left.contents first) (right.contents second) := by
  obtain ⟨rfl, old⟩ | ⟨other, second, other_eq, second_eq, _, _, keys, contents⟩ := same.cases
  · have valid := old first first_eq
    refine ⟨first, Value.eq_of_handle? first_eq, ?_, ?_⟩
    · rw [twins.left_grows.keys_eq valid, twins.right_grows.keys_eq valid]
    · rw [twins.left_grows.contents_eq valid, twins.right_grows.contents_eq valid]
      exact forall₂_same.mpr fun value mem => .old (twins.closed first value mem)
  · obtain rfl : first = other := Option.some.inj (first_eq.symm.trans other_eq)
    exact ⟨second, Value.eq_of_handle? second_eq, keys, contents⟩

theorem list (same : Correspond base left right (.list cell) b) :
    ∃ other, b = .list other ∧
      Forall₂ (Correspond base left right) (left.list cell) (right.list other) := by
  obtain ⟨second, rfl, keys, contents⟩ := twins.contents same (.list cell) rfl
  cases second with
  | list other => exact ⟨other, rfl, contents⟩
  | object other => cases keys

theorem object (same : Correspond base left right (.object cell) b) :
    ∃ other, b = .object other ∧
      Forall₂ (SameEntry (Correspond base left right)) (left.object cell).entries
        (right.object other).entries := by
  obtain ⟨second, rfl, keys, contents⟩ := twins.contents same (.object cell) rfl
  cases second with
  | list other => cases keys
  | object other => exact ⟨other, rfl, forall₂_sameEntry (Option.some.inj keys) contents⟩

theorem unfold_eq (same : Correspond base left right a b) (depth : Nat) :
    left.unfold depth a = right.unfold depth b := by
  induction depth generalizing a b with
  | zero => rfl
  | succ depth ih =>
    cases a with
    | list cell =>
      obtain ⟨other, rfl, items⟩ := twins.list same
      rw [Heap.unfold, Heap.unfold, map_eq_map_of_forall₂ items fun _ _ _ _ => ih]
    | object cell =>
      obtain ⟨other, rfl, entries⟩ := twins.object same
      rw [Heap.unfold, Heap.unfold, map_eq_map_of_forall₂ entries fun _ _ _ _ same => ?_]
      rw [same.1, ih same.2]
    | nil | bool | integer | number | str | function =>
      obtain rfl := same.eq_of_scalar rfl
      rfl

end Twins

/-! ### New containers -/

namespace Correspond

theorem newList (twins : Twins base left right)
    (same : Forall₂ (Correspond base left right) items others) :
    Correspond base { left with lists := left.lists.push { items := items.toArray } }
      { right with lists := right.lists.push { items := others.toArray } }
      (.list left.lists.size) (.list right.lists.size) := by
  have new {heap : Heap} (grows : base.Grows heap) (cell : ListCell) :
      ¬In base (.list heap.lists.size) ∧
        In { heap with lists := heap.lists.push cell } (.list heap.lists.size) := by
    refine ⟨fun valid => Nat.lt_irrefl _ (grows.handle_in _ valid), ?_⟩
    simp [In]
  have contents_eq (heap : Heap) (items : List Value) :
      ({ heap with lists := heap.lists.push { items := items.toArray } } : Heap).contents
        (.list heap.lists.size) = items := by
    simp [Heap.contents, Heap.list, Heap.listCell]
  refine .new rfl rfl (new twins.left_grows _) (new twins.right_grows _) rfl ?_
  rw [contents_eq, contents_eq]
  exact same.imp fun _ _ => .grow (.pushList left _) (.pushList right _)

theorem newObject (twins : Twins base left right) {table other}
    (same : Forall₂ (SameEntry (Correspond base left right)) table.entries other.entries) :
    Correspond base { left with objects := left.objects.push table }
      { right with objects := right.objects.push other }
      (.object left.objects.size) (.object right.objects.size) := by
  have new {heap : Heap} (grows : base.Grows heap) (table : Table String Value) :
      ¬In base (.object heap.objects.size) ∧
        In { heap with objects := heap.objects.push table } (.object heap.objects.size) := by
    refine ⟨fun valid => Nat.lt_irrefl _ (grows.handle_in _ valid), ?_⟩
    simp [In]
  have object_eq (heap : Heap) (table : Table String Value) :
      ({ heap with objects := heap.objects.push table } : Heap).object heap.objects.size =
        table := by
    simp [Heap.object]
  refine .new rfl rfl (new twins.left_grows _) (new twins.right_grows _) ?_ ?_
  · rw [Heap.keys, Heap.keys, object_eq, object_eq]
    exact congrArg some (map_eq_map_of_forall₂ same fun _ _ _ _ same => same.1)
  · rw [Heap.contents, Heap.contents, object_eq, object_eq]
    refine forall₂_map_left_iff.mpr (forall₂_map_right_iff.mpr (same.imp ?_))
    exact fun _ _ same => .grow (.pushObject left _) (.pushObject right _) same.2

end Correspond

/-! ### Texts -/

/-- Inside of a value, containers that `base` does not hold nest at most `depth` deep. -/
def Grounded (base heap : Heap) : Nat → Value → Prop
  | 0, value => value.In base
  | depth + 1, value =>
    value.In base ∨ ∃ handle, value.handle? = some handle ∧
      ∀ held ∈ heap.contents handle, Grounded base heap depth held

namespace Grounded

theorem succ (grounded : Grounded base heap depth value) :
    Grounded base heap (depth + 1) value := by
  induction depth generalizing value with
  | zero => exact .inl grounded
  | succ depth ih =>
    obtain old | ⟨handle, handle_eq, held_grounded⟩ := grounded
    · exact .inl old
    · exact .inr ⟨handle, handle_eq, fun held mem => ih (held_grounded held mem)⟩

theorem mono (le : depth ≤ more) (grounded : Grounded base heap depth value) :
    Grounded base heap more value := by
  induction le with
  | refl => exact grounded
  | step _ ih => exact ih.succ

/-- A new container nests exactly as deep as some number says. -/
theorem exists_depth (grounded : Grounded base heap depth value) (new : ¬value.In base) :
    ∃ less, less < depth ∧ Grounded base heap (less + 1) value ∧
      ¬Grounded base heap less value := by
  induction depth with
  | zero => exact absurd grounded new
  | succ depth ih =>
    by_cases shallower : Grounded base heap depth value
    · obtain ⟨less, lt, exact_depth⟩ := ih shallower
      exact ⟨less, by omega, exact_depth⟩
    · exact ⟨depth, by omega, grounded, shallower⟩

end Grounded

theorem CorrespondWithin.grounded (within : CorrespondWithin base left right depth a b) :
    Grounded base left depth a ∧ Grounded base right depth b := by
  induction depth generalizing a b with
  | zero =>
    obtain ⟨rfl, old⟩ := within
    exact ⟨old, old⟩
  | succ depth ih =>
    obtain ⟨rfl, old⟩ | ⟨first, second, first_eq, second_eq, _, _, _, contents⟩ := within
    · exact ⟨.inl old, .inl old⟩
    · have left_grounded := contents.imp fun _ _ within => And.intro (ih within).1 within
      have right_grounded := contents.flip.imp fun _ _ within => And.intro (ih within).2 within
      exact ⟨.inr ⟨first, first_eq, ((forall₂_and_left _ _).mp left_grounded).1⟩,
        .inr ⟨second, second_eq, ((forall₂_and_left _ _).mp right_grounded).1⟩⟩

theorem Handle.value_in : handle.value.In heap ↔ handle.In heap := by
  cases handle with
  | list cell | object cell =>
    exact ⟨fun valid => valid _ rfl, fun valid _ same => Option.some.inj same ▸ valid⟩

/-- The new containers of a path nest deeper than a number says. -/
def Above (base heap : Heap) (depth : Nat) (path : List Handle) : Prop :=
  ∀ handle ∈ path, ¬handle.In base → ¬Grounded base heap depth handle.value

theorem Above.enter (closed : base.Closed) (grows : base.Grows heap)
    (above : Above base heap depth path) (grounded : Grounded base heap depth handle.value) :
    ∃ less, (∀ held ∈ heap.contents handle, Grounded base heap less held) ∧
      Above base heap less (handle :: path) := by
  by_cases old : handle.In base
  · refine ⟨0, fun held mem => ?_, fun other _ new => ?_⟩
    · rw [grows.contents_eq old] at mem
      exact closed handle held mem
    · exact fun grounded_other => new (value_in.mp grounded_other)
  · have new : ¬handle.value.In base := fun valid => old (value_in.mp valid)
    obtain ⟨less, lt, exact_depth, deeper⟩ := grounded.exists_depth new
    refine ⟨less, fun held mem => ?_, fun other mem other_new => ?_⟩
    · obtain in_base | ⟨same, same_eq, held_grounded⟩ := exact_depth
      · exact absurd in_base new
      · obtain rfl : handle = same := by
          cases handle <;> exact Option.some.inj same_eq
        exact held_grounded held mem
    · obtain rfl | mem := mem_cons.mp mem
      · exact deeper
      · exact fun grounded_other => above other mem other_new (grounded_other.mono lt.le)

/-- Paths through two heaps that agree on the old containers, and whose new ones nest deeper than
some numbers say. -/
structure Paths (base left right : Heap) (depth other_depth : Nat) (path other_path : List Handle) :
    Prop where
  above : Above base left depth path
  other_above : Above base right other_depth other_path
  old (handle : Handle) (valid : handle.In base) : handle ∈ path ↔ handle ∈ other_path

namespace Twins

variable (twins : Twins base left right)
include twins

/-- Paths go on through containers that correspond. Only an old container can be on the path to
itself. -/
theorem enter (same : Correspond base left right first.value second.value)
    (grounded : Grounded base left depth first.value)
    (other_grounded : Grounded base right other_depth second.value)
    (paths : Paths base left right depth other_depth path other_path) :
    ((first ∈ path → first = second) ∧ (first ∈ path ↔ second ∈ other_path)) ∧
      ∃ less other_less, (∀ held ∈ left.contents first, Grounded base left less held) ∧
        (∀ held ∈ right.contents second, Grounded base right other_less held) ∧
        Paths base left right less other_less (first :: path) (second :: other_path) := by
  obtain ⟨less, held_grounded, above⟩ :=
    paths.above.enter twins.closed twins.left_grows grounded
  obtain ⟨other_less, other_held_grounded, other_above⟩ :=
    paths.other_above.enter twins.closed twins.right_grows other_grounded
  obtain ⟨same_value, old⟩ | ⟨_, _, first_eq, second_eq, new, other_new, _⟩ := same.cases
  · obtain rfl := value_injective same_value
    refine ⟨⟨fun _ => rfl, paths.old first (value_in.mp old)⟩, less, other_less,
      held_grounded, other_held_grounded, above, other_above, fun handle valid => ?_⟩
    rw [mem_cons, mem_cons, paths.old handle valid]
  · rw [← value_in, ← Value.eq_of_handle? first_eq, value_in] at new
    rw [← value_in, ← Value.eq_of_handle? second_eq, value_in] at other_new
    have absent : first ∉ path := fun mem => paths.above first mem new grounded
    have other_absent : second ∉ other_path := fun mem =>
      paths.other_above second mem other_new other_grounded
    refine ⟨⟨fun mem => absurd mem absent, iff_of_false absent other_absent⟩, less, other_less,
      held_grounded, other_held_grounded, above, other_above, fun handle valid => ?_⟩
    have first_ne : handle ≠ first := fun same => new (same ▸ valid)
    have second_ne : handle ≠ second := fun same => other_new (same ▸ valid)
    simp only [mem_cons, first_ne, second_ne, false_or, paths.old handle valid]

theorem unfolds {tree} (unfolds : left.Unfolds path a tree) (same : Correspond base left right a b)
    (grounded : Grounded base left depth a) (other_grounded : Grounded base right other_depth b)
    (paths : Paths base left right depth other_depth path other_path) :
    right.Unfolds other_path b tree := by
  induction unfolds generalizing b depth other_depth other_path with
  | leaf scalar =>
    obtain rfl := same.eq_of_scalar scalar
    exact .leaf scalar
  | mark container again =>
    obtain rfl := Value.eq_of_handle? container
    obtain ⟨second, rfl, _⟩ := twins.contents same _ container
    obtain ⟨⟨old, on_path⟩, _⟩ := twins.enter same grounded other_grounded paths
    obtain rfl := old again
    exact .mark container (on_path.mp again)
  | node container fresh length_eq _ ih =>
    obtain rfl := Value.eq_of_handle? container
    obtain ⟨second, rfl, keys, contents⟩ := twins.contents same _ container
    obtain ⟨⟨_, on_path⟩, less, other_less, held_grounded, other_held_grounded, inside⟩ :=
      twins.enter same grounded other_grounded paths
    rw [keys]
    refine .node second.handle?_value (mt on_path.mpr fresh) (contents.length_eq ▸ length_eq)
      fun _ _ mem => ?_
    have branches := forall₂_of_common contents (forall₂_of_zip length_eq ih)
      fun held other branch mem other_mem same good =>
        good.2 same (held_grounded held mem) (other_held_grounded other other_mem) inside
    exact (forall₂_iff_zip.mp branches).2 mem

theorem display_eq (same : Correspond base left right a b) : left.display a = right.display b := by
  obtain ⟨depth, within⟩ := same
  obtain ⟨grounded, other_grounded⟩ := within.grounded
  obtain ⟨tree, unfolds⟩ := Heap.Unfolds.exists_tree left [] a
  have paths : Paths base left right depth depth [] [] :=
    ⟨by simp [Above], by simp [Above], by simp⟩
  have other_unfolds := twins.unfolds unfolds ⟨depth, within⟩ grounded other_grounded paths
  rw [unfolds.display_eq, other_unfolds.display_eq]

theorem text_eq (same : Correspond base left right a b) : left.text a = right.text b := by
  cases a with
  | list cell =>
    obtain ⟨other, rfl, _⟩ := twins.list same
    exact twins.display_eq same
  | object cell =>
    obtain ⟨other, rfl, _⟩ := twins.object same
    exact twins.display_eq same
  | nil | str =>
    obtain rfl := same.eq_of_scalar rfl
    rfl
  | bool | integer | number | function =>
    obtain rfl := same.eq_of_scalar rfl
    exact twins.display_eq same

end Twins

end Vimlet
