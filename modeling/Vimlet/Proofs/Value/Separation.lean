import Vimlet.Proofs.Value.DeepCopy

/-!
# Parties that have nothing in common

Someone who has some containers at hand never comes by any other container than those inside of them
and new ones. So parties that have nothing in common never get anything in common, and no party sees
what another one does. A deep copy has nothing in common with its value.
-/

namespace Vimlet

open Option

variable {heap later : Heap} {hand hand' pool : Set Handle} {value : Value}

open Relation

/-! ### Steps of one party -/

/-- A value is no container, or one of those at hand. -/
def Value.AtHand (hand : Set Handle) (value : Value) : Prop :=
  ∀ handle, value.handle? = some handle → handle ∈ hand

theorem Value.AtHand.mono {more} (held : value.AtHand hand) (subset : hand ⊆ more) :
    value.AtHand more :=
  fun handle container => subset (held handle container)

/-- A step of someone with some containers at hand, and what is at hand after it. Only values at
hand are stored. -/
inductive Acts (heap : Heap) (hand : Set Handle) : Heap → Set Handle → Prop
  | take {outer inner} (mine : outer ∈ hand) (inside : inner ∈ heap.inner outer) :
      Acts heap hand heap (insert inner hand)
  | setList {cell items} (mine : .list cell ∈ hand)
      (held : ∀ item ∈ items, item.AtHand hand) : Acts heap hand (heap.setList cell items) hand
  | growList {cell items} (mine : .list cell ∈ hand)
      (held : ∀ item ∈ items, item.AtHand hand) : Acts heap hand (heap.growList cell items) hand
  | setItem {cell} (position : Nat) {item} (mine : .list cell ∈ hand)
      (held : item.AtHand hand) : Acts heap hand (heap.setItem cell position item) hand
  | pushItem {cell item} (mine : .list cell ∈ hand) (held : item.AtHand hand) :
      Acts heap hand (heap.pushItem cell item) hand
  | setObject {cell entries} (mine : .object cell ∈ hand)
      (held : ∀ item ∈ entries.values, item.AtHand hand) :
      Acts heap hand (heap.setObject cell entries) hand
  | newList {items later new} (held : ∀ item ∈ items, item.AtHand hand)
      (made : Mem.newList items heap = .ok new.value later) : Acts heap hand later (insert new hand)
  | newObject {entries later new} (held : ∀ item ∈ entries.values, item.AtHand hand)
      (made : Mem.newObject entries heap = .ok new.value later) :
      Acts heap hand later (insert new hand)
  | number (next : Nat) : Acts heap hand { heap with nextSerial := next } hand

/-- Only containers at hand change, and only values at hand are stored. -/
structure Heap.Confined (heap : Heap) (hand : Set Handle) (later : Heap) : Prop where
  handles (handle : Handle) : handle.In heap → handle.In later
  others (handle : Handle) : handle.In heap → handle ∉ hand →
    later.keys handle = heap.keys handle ∧ later.contents handle = heap.contents handle
  stored (handle : Handle) :
    ∀ held ∈ later.contents handle, held ∈ heap.contents handle ∨ held.AtHand hand

namespace Heap.Confined

theorem refl (heap : Heap) (hand : Set Handle) : heap.Confined hand heap where
  handles _ := id
  others _ _ _ := ⟨rfl, rfl⟩
  stored _ _ := .inl

theorem of_touches {target} (touches : heap.Touches target later) (mine : target ∈ hand)
    (stored : ∀ held ∈ later.contents target, held ∈ heap.contents target ∨ held.AtHand hand) :
    heap.Confined hand later where
  handles handle := (touches.handles handle).mpr
  others handle _ outside := by
    have different : handle ≠ target := (ne_of_mem_of_not_mem mine outside).symm
    exact ⟨touches.keys_eq different, touches.contents_eq different⟩
  stored handle held mem := by
    by_cases same : handle = target
    · subst same
      exact stored held mem
    · exact .inl (touches.contents_eq same ▸ mem)

theorem of_makes {new} (grows : heap.Grows later) (makes : heap.Makes new later)
    (stored : ∀ held ∈ later.contents new, held.AtHand hand) : heap.Confined hand later where
  handles := grows.handle_in
  others _ valid _ := ⟨grows.keys_eq valid, grows.contents_eq valid⟩
  stored handle held mem := by
    by_cases same : handle = new
    · subst same
      exact .inr (stored held mem)
    · exact .inl (makes.others handle same ▸ mem)

end Heap.Confined

namespace Acts

theorem confined (acts : Acts heap hand later hand') : heap.Confined hand later := by
  cases acts with
  | take => exact .refl heap hand
  | @setList cell items mine held | @growList cell items mine held =>
    refine .of_touches (.modifyList heap cell _) mine fun value mem => .inr (held value ?_)
    simpa using heap.mem_modifyList mem
  | @setItem cell position item mine held =>
    refine .of_touches (.modifyList heap cell _) mine fun value mem => ?_
    have stored := heap.mem_modifyList mem
    rw [Array.toList_setIfInBounds] at stored
    obtain old | rfl := List.mem_or_eq_of_mem_set stored
    · exact .inl old
    · exact .inr held
  | @pushItem cell item mine held =>
    refine .of_touches (.modifyList heap cell _) mine fun value mem => ?_
    have stored := heap.mem_modifyList mem
    rw [Array.toList_push] at stored
    obtain old | last := List.mem_append.mp stored
    · exact .inl old
    · exact .inr (List.mem_singleton.mp last ▸ held)
  | @setObject cell entries mine held =>
    refine .of_touches (.setObject heap cell entries) mine fun value mem => .inr (held value ?_)
    exact heap.mem_setObject mem
  | @newList items _ new held made =>
    cases new <;> cases made
    refine .of_makes (.pushList heap _) (.pushList heap items) ?_
    rwa [Heap.contents_pushList]
  | @newObject entries _ new held made =>
    cases new <;> cases made
    refine .of_makes (.pushObject heap entries) (.pushObject heap entries) ?_
    rwa [Heap.contents_pushObject]
  | number next =>
    refine ⟨?_, ?_, ?_⟩
    · rintro (cell | cell) <;> exact id
    · rintro (cell | cell) <;> exact fun _ _ => ⟨rfl, rfl⟩
    · rintro (cell | cell) held mem <;> exact .inl mem

/-- What a party has at hand after a step it had before, or it was inside of that, or it is new. -/
theorem gained (acts : Acts heap hand later hand') : ∀ handle ∈ hand', handle ∈ hand ∨
    (∃ outer ∈ hand, handle ∈ heap.inner outer) ∨ ¬handle.In heap ∧ handle.In later := by
  cases acts with
  | take mine inside =>
    rintro handle (rfl | mem)
    · exact .inr (.inl ⟨_, mine, inside⟩)
    · exact .inl mem
  | @newList items _ new held made =>
    cases new <;> cases made
    rintro handle (rfl | mem)
    · exact .inr (.inr ⟨(Heap.Makes.pushList heap items).new, by simp [Handle.In]⟩)
    · exact .inl mem
  | @newObject entries _ new held made =>
    cases new <;> cases made
    rintro handle (rfl | mem)
    · exact .inr (.inr ⟨(Heap.Makes.pushObject heap entries).new, by simp [Handle.In]⟩)
    · exact .inl mem
  | setList | growList | setItem | pushItem | setObject | number =>
    exact fun _ mem => .inl mem

end Acts

/-! ### Pools -/

/-- Containers of a heap that hold no other ones. -/
structure Heap.Encloses (heap : Heap) (pool : Set Handle) : Prop where
  valid : ∀ handle ∈ pool, handle.In heap
  inside : ∀ handle ∈ pool, ∀ held ∈ heap.contents handle, held.AtHand pool

/-- A value with its keys at the end of a walk. -/
def Heap.seen (heap : Heap) (value : Value) (path : List Nat) :
    Option (Value × Option (List String)) :=
  (heap.follow path value).map fun found => (found, found.handle?.bind heap.keys)

namespace Heap.Encloses

theorem reachable (valid : ∀ handle, heap.Reaches value handle → handle.In heap) :
    heap.Encloses {handle | heap.Reaches value handle} where
  valid := valid
  inside handle reaches held mem inner inner_eq := by
    obtain rfl := Value.eq_of_handle? inner_eq
    exact reaches.inner (mem_inner.mpr mem)

variable (encloses : heap.Encloses pool)
include encloses

theorem follow {path found} (own : value.AtHand pool)
    (follows : heap.follow path value = some found) : found.AtHand pool := by
  induction path generalizing value with
  | nil => exact Option.some.inj follows ▸ own
  | cons position path ih =>
    obtain ⟨next, step, rest⟩ := bind_eq_some_iff.mp ((follow_cons ..).symm.trans follows)
    obtain ⟨handle, container, there⟩ := bind_eq_some_iff.mp step
    have mem := List.mem_of_getElem? there
    exact ih (encloses.inside handle (own handle container) next mem) rest

/-- Walks from within a pool find the same as long as nothing in the pool changes. -/
theorem seen_eq (same : ∀ handle ∈ pool, later.keys handle = heap.keys handle ∧
      later.contents handle = heap.contents handle)
    (own : value.AtHand pool) (path : List Nat) : later.seen value path = heap.seen value path := by
  have follow_eq : later.follow path value = heap.follow path value := by
    induction path generalizing value with
    | nil => rfl
    | cons position path ih =>
      rw [follow_cons, follow_cons]
      cases container : value.handle? with
      | none => rfl
      | some handle =>
        have mine := own handle container
        rw [bind_some, bind_some, (same handle mine).2]
        cases there : (heap.contents handle)[position]? with
        | none => rfl
        | some held => exact ih (encloses.inside handle mine held (List.mem_of_getElem? there))
  rw [seen, seen, follow_eq]
  refine map_congr fun found follows => ?_
  cases container : found.handle? with
  | none => rfl
  | some handle =>
    have mine := encloses.follow own follows handle container
    rw [bind_some, bind_some, (same handle mine).1]

theorem act (acts : Acts heap hand later hand') (subset : hand ⊆ pool) :
    hand' ⊆ pool ∪ {handle | ¬handle.In heap ∧ handle.In later} ∧
      later.Encloses (pool ∪ {handle | ¬handle.In heap ∧ handle.In later}) := by
  have confined := acts.confined
  refine ⟨fun handle mem => ?_, ?_, ?_⟩
  · obtain mem | ⟨outer, outer_mem, inside⟩ | new := acts.gained handle mem
    · exact .inl (subset mem)
    · refine .inl (encloses.inside outer (subset outer_mem) _ (mem_inner.mp inside) handle ?_)
      exact handle.handle?_value
    · exact .inr new
  · rintro handle (mem | new)
    · exact confined.handles handle (encloses.valid handle mem)
    · exact new.2
  · rintro handle mem held held_mem
    obtain old | stored := confined.stored handle held held_mem
    · obtain mem | new := mem
      · exact (encloses.inside handle mem held old).mono Set.subset_union_left
      · rw [contents_eq_nil new.1] at old
        cases old
    · exact (stored.mono subset).mono Set.subset_union_left

end Heap.Encloses

/-- Nothing changes in a pool that has nothing in common with what is at hand. -/
theorem Heap.Confined.unchanged (confined : heap.Confined hand later)
    (encloses : heap.Encloses pool) (apart : ∀ handle ∈ hand, handle ∉ pool) : ∀ handle ∈ pool,
    later.keys handle = heap.keys handle ∧ later.contents handle = heap.contents handle :=
  fun handle mem => confined.others handle (encloses.valid handle mem) fun mine =>
    apart handle mine mem

theorem Heap.Confined.encloses (confined : heap.Confined hand later) (encloses : heap.Encloses pool)
    (apart : ∀ handle ∈ hand, handle ∉ pool) : later.Encloses pool where
  valid handle mem := confined.handles handle (encloses.valid handle mem)
  inside handle mem := by
    rw [(confined.unchanged encloses apart handle mem).2]
    exact encloses.inside handle mem

/-! ### Parties -/

/-- Parties that act on one heap, with what each of them has at hand. -/
structure Parties (ι : Type) where
  /-- The heap on which they act. -/
  heap : Heap
  /-- The containers that a party has at hand. -/
  hands : ι → Set Handle

namespace Parties

variable {ι : Type} [DecidableEq ι]

/-- One of the parties acts. -/
inductive Step : Parties ι → Parties ι → Prop
  | act {parties party later hand} (acts : Acts parties.heap (parties.hands party) later hand) :
      Step parties ⟨later, Function.update parties.hands party hand⟩

/-- Each party keeps to a pool of its own. -/
structure Within (parties : Parties ι) (pools : ι → Set Handle) : Prop where
  hands (party : ι) : parties.hands party ⊆ pools party
  encloses (party : ι) : parties.heap.Encloses (pools party)
  apart : Pairwise fun party other => ∀ handle ∈ pools party, handle ∉ pools other

variable {parties later : Parties ι} {pools : ι → Set Handle}

omit [DecidableEq ι] in
theorem Within.apart_hand (within : parties.Within pools) {party other} (different : other ≠ party) :
    ∀ handle ∈ parties.hands party, handle ∉ pools other :=
  fun handle mine => within.apart different.symm handle (within.hands party mine)

/-- The party that acts may need a larger pool. -/
theorem Within.step (within : parties.Within pools) (step : Step parties later) :
    ∃ larger : ι → Set Handle, later.Within larger ∧ ∀ party, pools party ⊆ larger party := by
  cases step with
  | @act actor heap hand acts =>
    obtain ⟨subset, encloses⟩ := (within.encloses actor).act acts (within.hands actor)
    set joined := pools actor ∪ {handle | ¬handle.In parties.heap ∧ handle.In heap}
    -- what is new belongs to the one who acts: all other pools were in the heap before
    have joined_apart (other : ι) (different : other ≠ actor) :
        ∀ handle ∈ joined, handle ∉ pools other := by
      rintro handle (mem | new) other_mem
      · exact within.apart different.symm handle mem other_mem
      · exact new.1 ((within.encloses other).valid handle other_mem)
    refine ⟨Function.update pools actor joined, ⟨fun party => ?_, fun party => ?_, ?_⟩,
      fun party => ?_⟩
    · obtain rfl | different := eq_or_ne party actor
      · simpa only [Function.update_self] using subset
      · simpa only [Function.update_of_ne different] using within.hands party
    · obtain rfl | different := eq_or_ne party actor
      · simpa only [Function.update_self] using encloses
      · rw [Function.update_of_ne different]
        exact acts.confined.encloses (within.encloses party) (within.apart_hand different)
    · intro party other different
      obtain rfl | first := eq_or_ne party actor
      · rw [Function.update_self, Function.update_of_ne different.symm]
        exact joined_apart other different.symm
      · obtain rfl | second := eq_or_ne other actor
        · rw [Function.update_self, Function.update_of_ne first]
          exact fun handle mem joined_mem => joined_apart party first handle joined_mem mem
        · rw [Function.update_of_ne first, Function.update_of_ne second]
          exact within.apart different
    · obtain rfl | different := eq_or_ne party actor
      · rw [Function.update_self]
        exact Set.subset_union_left
      · rw [Function.update_of_ne different]

theorem Within.run (within : parties.Within pools) (run : ReflTransGen Step parties later) :
    ∃ larger : ι → Set Handle, later.Within larger ∧ ∀ party, pools party ⊆ larger party := by
  induction run with
  | refl => exact ⟨pools, within, fun _ => subset_rfl⟩
  | tail _ step ih =>
    obtain ⟨middle, middle_within, subset⟩ := ih
    obtain ⟨larger, larger_within, more⟩ := middle_within.step step
    exact ⟨larger, larger_within, fun party => (subset party).trans (more party)⟩

/-- However the parties act, no party changes anything that another one sees. -/
theorem Within.seen_eq (within : parties.Within pools) (run : ReflTransGen Step parties later)
    {party other} (different : other ≠ party) (acts : Acts later.heap (later.hands party) heap hand)
    (own : value.AtHand (pools other)) (path : List Nat) :
    heap.seen value path = later.heap.seen value path := by
  obtain ⟨larger, larger_within, subset⟩ := within.run run
  have unchanged := acts.confined.unchanged (larger_within.encloses other)
    (larger_within.apart_hand different)
  exact (larger_within.encloses other).seen_eq unchanged (own.mono (subset other)) path

end Parties

/-! ### A value and its copy -/

/-- The two sides of a copy. -/
inductive Side where
  | original
  | copy
deriving DecidableEq

def Side.root (value copy : Value) : Side → Value
  | .original => value
  | .copy => copy

/-- Two parties, one of which has a value at hand and the other one its copy. -/
def Parties.holding (heap : Heap) (value copy : Value) : Parties Side :=
  ⟨heap, fun side => {handle | (side.root value copy).handle? = some handle}⟩

theorem Parties.within_holding {copy}
    (valid : ∀ (side : Side) handle, heap.Reaches (side.root value copy) handle → handle.In heap)
    (apart : ∀ handle, heap.Reaches value handle → ¬heap.Reaches copy handle) :
    (holding heap value copy).Within
      fun side => {handle | heap.Reaches (side.root value copy) handle} where
  hands side handle container := by
    change heap.Reaches _ handle
    rw [Value.eq_of_handle? container]
    exact .refl
  encloses side := .reachable (valid side)
  apart party other different handle first second := by
    cases party with
    | original =>
      cases other with
      | original => exact different rfl
      | copy => exact apart handle first second
    | copy =>
      cases other with
      | original => exact apart handle second first
      | copy => exact different rfl

/-- A deep copy leaves all containers as they are. Those inside the copy are new, and mirror those
inside the value; two positions of the copy have the same container exactly if those of the value
do. Nothing that is done later on one side is seen from the other one. -/
theorem Mem.deepCopy_clones_reachable {heap : Heap} {value : Value} (closed : heap.Closed)
    (valid : value.In heap) :
    ∃ copy after, deepCopy value heap = .ok copy after ∧ heap.Grows after ∧
      (∀ handle, after.Reaches copy handle → handle.In after ∧ ¬handle.In heap) ∧
      (∃ clone renumber, Function.Injective renumber ∧ copy = value.mirror clone renumber ∧
        Set.BijOn clone {handle | heap.Reaches value handle} {handle | after.Reaches copy handle} ∧
        ∀ handle, heap.Reaches value handle → (clone handle).value.kind = handle.value.kind ∧
          after.keys (clone handle) = heap.keys handle ∧
          after.contents (clone handle) = (heap.contents handle).map (·.mirror clone renumber)) ∧
      (∀ path path', after.containerAt copy path = after.containerAt copy path' ↔
        heap.containerAt value path = heap.containerAt value path') ∧
      ∀ parties, ReflTransGen Parties.Step (.holding after value copy) parties →
        ∀ side other later hand, other ≠ side → Acts parties.heap (parties.hands side) later hand →
          ∀ path, later.seen (other.root value copy) path =
            parties.heap.seen (other.root value copy) path := by
  obtain ⟨after, clone, renumber, copied, grows, mirrors, injective, each⟩ :=
    deepCopy_ok closed valid
  have old (handle : Handle) (reaches : after.Reaches value handle) : handle.In heap :=
    Handle.value_in.mp (grows.reaches closed valid reaches).2
  have new (handle : Handle) (reaches : after.Reaches (value.mirror clone renumber) handle) :
      handle.In after ∧ ¬handle.In heap := by
    obtain ⟨model, model_reaches, rfl⟩ := mirrors.bijOn.surjOn reaches
    obtain ⟨_, clone_new, clone_valid⟩ := each model model_reaches
    exact ⟨clone_valid, clone_new⟩
  refine ⟨_, after, copied, grows, new, ⟨clone, renumber, injective, rfl, mirrors.bijOn, ?_⟩,
    mirrors.containerAt_eq_iff, fun parties run side other later hand different acts => ?_⟩
  · intro handle reaches
    exact ⟨(each handle reaches).1, mirrors.keys handle reaches, mirrors.contents handle reaches⟩
  · have within := Parties.within_holding
      (fun | .original, handle, reaches => grows.handle_in handle (old handle reaches)
           | .copy, handle, reaches => (new handle reaches).1)
      fun handle reaches again => (new handle again).2 (old handle reaches)
    exact within.seen_eq run different acts fun handle container => within.hands other container

/-- A List that holds itself and twice the same Object, which holds the List again. -/
def Heap.knot : Heap where
  lists := #[{ items := #[.list 0, .object 0, .object 0, .function ⟨"Len", none, 0⟩] }]
  objects := #[⟨[("back", .list 0)]⟩]
  nextSerial := 1

theorem Mem.deepCopy_clones_reachable_knot :
    let heap := Heap.knot
    heap.Closed ∧ Value.In heap (.list 0) ∧
      ∃ copy after, deepCopy (.list 0) heap = .ok copy after ∧ heap.Grows after ∧
        after.containerAt copy [0] = after.containerAt copy [] ∧
        after.containerAt copy [1] = after.containerAt copy [2] ∧
        after.containerAt copy [1, 0] = after.containerAt copy [] ∧
        after.containerAt copy [1] ≠ after.containerAt copy [] := by
  have valid : Value.In Heap.knot (.list 0) := by decide
  have closed : Heap.knot.Closed := Heap.forall_contents (by decide) (by decide)
  obtain ⟨copy, after, copied, grows, _, _, shared, _⟩ := deepCopy_clones_reachable closed valid
  refine ⟨closed, valid, copy, after, copied, grows, (shared _ _).mpr rfl, (shared _ _).mpr rfl,
    (shared _ _).mpr rfl, mt (shared _ _).mp (by decide)⟩

end Vimlet
