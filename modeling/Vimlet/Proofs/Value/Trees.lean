import Mathlib.Data.List.Forall2
import Mathlib.Tactic.Choose
import Vimlet.Proofs.Value.Walks

/-!
# Values as trees

Every value can be written out as a tree, with a mark in the place of a container that also lies
around itself. Each container on a path is a new one, so a walk that may enter as many containers as
there are follows the tree: a printer writes a value as the text of its tree.
-/

namespace Vimlet

open List hiding get modify set

variable {heap : Heap} {around : List Handle} {value : Value} {fuel : Nat}

/-- The keys of a container, if it is an Object. -/
def Heap.keys (heap : Heap) : Handle → Option (List String)
  | .list _ => none
  | .object cell => some (heap.object cell).keys

/-- A value with its containers written out. -/
inductive Value.Tree where
  /-- A value that is no container. -/
  | leaf (value : Value) (scalar : value.handle? = none)
  /-- A container inside itself. -/
  | mark (handle : Handle)
  /-- A container with its contents, and with its keys if it is an Object. -/
  | node (keys : Option (List String)) (branches : List Value.Tree)
deriving Inhabited

/-- The containers for which there are marks, in order. -/
def Value.Tree.marks : Value.Tree → List Handle
  | .leaf .. => []
  | .mark handle => [handle]
  | .node _ branches => branches.flatMap marks

/-- A value is written out, inside of some containers. There is a mark for a container exactly where
it is one of those around it. -/
inductive Heap.Unfolds (heap : Heap) : List Handle → Value → Value.Tree → Prop
  | leaf {around : List Handle} {value} (scalar : value.handle? = none) :
      Unfolds heap around value (.leaf value scalar)
  | mark {around value handle} (container : value.handle? = some handle) (again : handle ∈ around) :
      Unfolds heap around value (.mark handle)
  | node {around value handle branches}
      (container : value.handle? = some handle) (fresh : handle ∉ around)
      (length_eq : (heap.contents handle).length = branches.length)
      (inside : ∀ held branch, (held, branch) ∈ (heap.contents handle).zip branches →
        Unfolds heap (handle :: around) held branch) :
      Unfolds heap around value (.node (heap.keys handle) branches)

variable {α β γ : Type} {related : α → β → Prop} {items : List α} {others : List β}
  {printer : Printer}

theorem map_eq_map_of_forall₂ {f : α → γ} {g : β → γ} (all : Forall₂ related items others)
    (same : ∀ item ∈ items, ∀ other ∈ others, related item other → f item = g other) :
    items.map f = others.map g := by
  induction all with
  | nil => rfl
  | cons head _ ih =>
    rw [map_cons, map_cons, same _ mem_cons_self _ mem_cons_self head,
      ih fun item mem other other_mem =>
        same item (mem_cons_of_mem _ mem) other (mem_cons_of_mem _ other_mem)]

theorem forall₂_zipWith {good : α → γ → Prop} {f : α → β → γ}
    (all : Forall₂ related items others)
    (imp : ∀ item ∈ items, ∀ other, related item other → good item (f item other)) :
    Forall₂ good items (zipWith f items others) := by
  induction all with
  | nil => exact .nil
  | cons head _ ih =>
    obtain ⟨first, rest⟩ := forall_mem_cons.mp imp
    exact .cons (first _ head) (ih rest)

theorem forall_of_forall₂ {property : β → Prop} (all : Forall₂ related items others)
    (imp : ∀ item other, related item other → property other) :
    ∀ other ∈ others, property other := by
  induction all with
  | nil => exact forall_mem_nil _
  | cons head _ ih => exact forall_mem_cons.mpr ⟨imp _ _ head, ih⟩

/-- Lists are related if both are related to a third one. -/
theorem forall₂_of_common {first : α → β → Prop} {second : α → γ → Prop} {related : β → γ → Prop}
    {more} (all : Forall₂ first items others) (rest : Forall₂ second items more)
    (imp : ∀ item other another, item ∈ items → other ∈ others → first item other →
      second item another → related other another) : Forall₂ related others more := by
  induction all generalizing more with
  | nil =>
    cases rest
    exact .nil
  | cons head _ ih =>
    cases rest with
    | cons other_head rest =>
      refine .cons (imp _ _ _ mem_cons_self mem_cons_self head other_head) (ih rest ?_)
      exact fun _ _ _ mem other_mem =>
        imp _ _ _ (mem_cons_of_mem _ mem) (mem_cons_of_mem _ other_mem)

/-- Pairs of members at the same places of two lists. -/
theorem forall₂_of_zip (length_eq : items.length = others.length)
    (all : ∀ item other, (item, other) ∈ items.zip others → related item other) :
    Forall₂ (fun item other => (item ∈ items ∧ other ∈ others) ∧ related item other) items
      others :=
  forall₂_iff_zip.mpr ⟨length_eq, fun mem => ⟨of_mem_zip mem, all _ _ mem⟩⟩

namespace Heap.Unfolds

variable {tree : Value.Tree}

theorem unique (unfolds : heap.Unfolds around value tree) (other : Value.Tree)
    (again : heap.Unfolds around value other) : tree = other := by
  induction unfolds generalizing other with
  | leaf scalar =>
    cases again with
    | leaf => rfl
    | mark container | node container => cases scalar.symm.trans container
  | mark container inside =>
    cases again with
    | leaf scalar => cases scalar.symm.trans container
    | mark same => rw [Option.some.inj (container.symm.trans same)]
    | node same fresh =>
      exact absurd (Option.some.inj (container.symm.trans same) ▸ inside) fresh
  | node container fresh length_eq _ ih =>
    cases again with
    | leaf scalar => cases scalar.symm.trans container
    | mark same inside =>
      exact absurd (Option.some.inj (container.symm.trans same) ▸ inside) fresh
    | node same _ other_length inside =>
      obtain rfl := Option.some.inj (container.symm.trans same)
      have branches := forall₂_of_zip length_eq ih
      have others := forall₂_of_zip other_length inside
      refine congrArg (Value.Tree.node _) (ext_getElem ?_ fun i valid other_valid => ?_)
      · rw [← length_eq, other_length]
      · have held_valid := length_eq ▸ valid
        exact (branches.get held_valid valid).2 _ (others.get held_valid other_valid).2

/-- Every value can be written out. Each container on the way is a new one. -/
theorem exists_tree (heap : Heap) (around : List Handle) (value : Value) :
    ∃ tree, heap.Unfolds around value tree := by
  induction left : unvisited heap.handles around using Nat.strong_induction_on
    generalizing around value with
  | _ left ih =>
    cases container : value.handle? with
    | none => exact ⟨_, .leaf container⟩
    | some handle =>
      by_cases again : handle ∈ around
      · exact ⟨_, .mark container again⟩
      · have inside : ∀ held ∈ heap.contents handle,
            ∃ tree, heap.Unfolds (handle :: around) held tree := fun held mem =>
          ih _ (left ▸ unvisited_enter_lt again mem) _ held rfl
        -- the same value has the same tree in all of its places under one path
        choose! branch unfolds using inside
        have branches := forall₂_iff_zip.mp
          (forall₂_map_right_iff.mpr (forall₂_same.mpr unfolds))
        exact ⟨_, .node container again branches.1 fun _ _ mem => branches.2 mem⟩

/-- What carries over from branches to trees holds of every walk that may enter as many containers
as there are. -/
theorem walk {motive : Nat → List Handle → Value → Value.Tree → Prop}
    (leaf : ∀ fuel around value scalar, motive (fuel + 1) around value (.leaf value scalar))
    (mark : ∀ fuel around handle, handle ∈ around →
      motive (fuel + 1) around handle.value (.mark handle))
    (node : ∀ fuel around handle branches, handle ∉ around →
      Forall₂ (motive fuel (handle :: around)) (heap.contents handle) branches →
      motive (fuel + 1) around handle.value (.node (heap.keys handle) branches))
    (unfolds : heap.Unfolds around value tree) (enough : unvisited heap.handles around < fuel) :
    motive fuel around value tree := by
  induction unfolds generalizing fuel with
  | leaf scalar =>
    obtain ⟨fuel, rfl⟩ := Nat.exists_eq_succ_of_ne_zero (Nat.ne_zero_of_lt enough)
    exact leaf fuel _ _ scalar
  | mark container again =>
    obtain ⟨fuel, rfl⟩ := Nat.exists_eq_succ_of_ne_zero (Nat.ne_zero_of_lt enough)
    obtain rfl := Value.eq_of_handle? container
    exact mark fuel _ _ again
  | node container fresh length_eq _ ih =>
    obtain ⟨fuel, rfl⟩ := Nat.exists_eq_succ_of_ne_zero (Nat.ne_zero_of_lt enough)
    obtain rfl := Value.eq_of_handle? container
    refine node fuel _ _ _ fresh ((forall₂_of_zip length_eq ih).imp ?_)
    rintro held branch ⟨⟨mem, _⟩, ih⟩
    have fewer := unvisited_enter_lt fresh mem
    exact ih (by omega)

/-- What carries over from the branches of a tree to the tree holds of every value whose tree has no
marks. -/
theorem unmarked_induct {motive : Value → Value.Tree → Prop}
    (leaf : ∀ value scalar, motive value (.leaf value scalar))
    (node : ∀ handle branches,
      Forall₂ (fun held branch => held ∈ heap.contents handle ∧ motive held branch)
        (heap.contents handle) branches →
      motive handle.value (.node (heap.keys handle) branches))
    (unfolds : heap.Unfolds around value tree) (unmarked : tree.marks = []) :
    motive value tree := by
  induction unfolds with
  | leaf scalar => exact leaf _ scalar
  | mark => simp [Value.Tree.marks] at unmarked
  | node container _ length_eq _ ih =>
    obtain rfl := Value.eq_of_handle? container
    rw [Value.Tree.marks, flatMap_eq_nil_iff] at unmarked
    refine node _ _ ((forall₂_of_zip length_eq ih).imp ?_)
    exact fun held branch ⟨⟨mem, branch_mem⟩, ih⟩ => ⟨mem, ih (unmarked branch branch_mem)⟩

end Heap.Unfolds

/-! ### Printing -/

namespace Heap

/-- The literal of a value. `path` holds the containers around it, and `fuel` bounds how many more
can be entered. -/
def displayFrom (heap : Heap) : Nat → List Handle → Value → String
  | _, _, .nil => "v:null"
  | _, _, .bool b => boolText b
  | _, _, .integer n => integerText n
  | _, _, .number x => NumberFormat.script.text x
  | _, _, .str text => quoteLiteral text
  | _, _, .function ref => "function('" ++ ref.name ++ "')"
  | 0, _, .list _ => "[...]"
  | 0, _, .object _ => "\x7b...\x7d"
  | fuel + 1, path, .list cell =>
    if path.contains (.list cell) then "[...]"
    else
      let items := (heap.list cell).map (displayFrom heap fuel (.list cell :: path))
      "[" ++ ", ".intercalate items ++ "]"
  | fuel + 1, path, .object cell =>
    if path.contains (.object cell) then "\x7b...\x7d"
    else
      let entries := (heap.object cell).entries.map fun (key, value) =>
        quoteLiteral key ++ ": " ++ displayFrom heap fuel (.object cell :: path) value
      "\x7b" ++ ", ".intercalate entries ++ "\x7d"

theorem displayFrom_list (heap : Heap) (fuel : Nat) (path : List Handle) (cell : Nat) :
    heap.displayFrom (fuel + 1) path (.list cell) =
      if path.contains (.list cell) then "[...]"
      else "[" ++ ", ".intercalate
        ((heap.list cell).map (heap.displayFrom fuel (.list cell :: path))) ++ "]" := by
  rw [displayFrom]

theorem displayFrom_object (heap : Heap) (fuel : Nat) (path : List Handle) (cell : Nat) :
    heap.displayFrom (fuel + 1) path (.object cell) =
      if path.contains (.object cell) then "\x7b...\x7d"
      else "\x7b" ++ ", ".intercalate ((heap.object cell).entries.map fun entry =>
        quoteLiteral entry.1 ++ ": " ++
          heap.displayFrom fuel (.object cell :: path) entry.2) ++ "\x7d" := by
  rw [displayFrom]

end Heap

theorem Printer.bind_eq {act} {next : α → StateM Printer β} {result after}
    (first : act printer = (result, after)) : (act >>= next) printer = next result after := by
  simp only [bind, StateT.bind, first]

/-- Items that leave the printer as it is are printed one by one. -/
theorem Printer.mapM_eq {act : α → StateM Printer String} {text : α → String}
    (each : ∀ item ∈ items, act item printer = (text item, printer)) :
    items.mapM act printer = (items.map text, printer) := by
  induction items with
  | nil => rfl
  | cons item rest ih =>
    obtain ⟨first, others⟩ := forall_mem_cons.mp each
    rw [mapM_cons, bind_eq first, bind_eq (ih others)]
    rfl

theorem Printer.enter_eq {handle mark text contents}
    (inside : contents ⟨handle :: printer.active⟩ = (text, ⟨handle :: printer.active⟩)) :
    enter handle mark contents printer =
      (if printer.active.contains handle then mark else text, printer) := by
  have run_eq : enter handle mark contents printer =
      if printer.active.contains handle then (mark, printer)
      else
        let (text, after) := contents ⟨handle :: printer.active⟩
        (text, ⟨after.active.erase handle⟩) := by
    simp only [enter, bind, StateT.bind, get, getThe, MonadStateOf.get, StateT.get, pure]
    split <;> rfl
  rw [run_eq, inside]
  split
  · rfl
  · simp

/-- A printer is left as it was, and the containers that are active are those around the value. -/
theorem Printer.formatWithin_eq (heap : Heap) (fuel : Nat) (value : Value) (printer : Printer) :
    formatWithin heap fuel value printer =
      (heap.displayFrom fuel printer.active value, printer) := by
  induction fuel generalizing value printer with
  | zero => cases value <;> rfl
  | succ fuel ih =>
    cases value with
    | nil | bool | integer | number | str | function => rfl
    | list cell =>
      rw [Heap.displayFrom_list]
      exact enter_eq (bind_eq (mapM_eq fun item _ => ih item _))
    | object cell =>
      rw [Heap.displayFrom_object]
      exact enter_eq (bind_eq (mapM_eq fun entry _ => bind_eq (ih entry.2 _)))

/-- The literal of a value that is no container. -/
def Value.literal : (value : Value) → value.handle? = none → String
  | .nil, _ => "v:null"
  | .bool b, _ => boolText b
  | .integer n, _ => integerText n
  | .number x, _ => NumberFormat.script.text x
  | .str text, _ => quoteLiteral text
  | .function ref, _ => "function('" ++ ref.name ++ "')"

def Value.Tree.text : Value.Tree → String
  | .leaf value scalar => value.literal scalar
  | .mark (.list _) => "[...]"
  | .mark (.object _) => "\x7b...\x7d"
  | .node none branches => "[" ++ ", ".intercalate (branches.map text) ++ "]"
  | .node (some keys) branches =>
    let entry (key text : String) := quoteLiteral key ++ ": " ++ text
    "\x7b" ++ ", ".intercalate (zipWith entry keys (branches.map text)) ++ "\x7d"

theorem zipWith_eq_map_of_forall₂ {f : α → β → γ} {g : α → γ}
    (all : Forall₂ (fun item other => g item = f item other) items others) :
    zipWith f items others = items.map g := by
  induction all with
  | nil => rfl
  | cons head _ ih => rw [zipWith_cons_cons, map_cons, head, ih]

/-- A value is printed as its tree, unless paths are cut off. -/
theorem Heap.Unfolds.displayFrom_eq {tree} (unfolds : heap.Unfolds around value tree)
    (enough : unvisited heap.handles around < fuel) :
    heap.displayFrom fuel around value = tree.text := by
  refine unfolds.walk (motive := fun fuel around value tree =>
    heap.displayFrom fuel around value = tree.text) ?leaf ?mark ?node enough
  case leaf =>
    intro fuel around value scalar
    rw [Value.Tree.text]
    cases value with
    | list | object => cases scalar
    | nil | bool | integer | number | str | function => simp only [displayFrom, Value.literal]
  case mark =>
    intro fuel around handle again
    cases handle with
    | list cell =>
      rw [Handle.value, displayFrom_list, if_pos (by simpa using again), Value.Tree.text]
    | object cell =>
      rw [Handle.value, displayFrom_object, if_pos (by simpa using again), Value.Tree.text]
  case node =>
    intro fuel around handle branches fresh inside
    cases handle with
    | list cell =>
      rw [contents] at inside
      rw [Handle.value, displayFrom_list, if_neg (by simpa using fresh), keys, Value.Tree.text,
        map_eq_map_of_forall₂ inside fun _ _ _ _ same => same]
    | object cell =>
      rw [Handle.value, displayFrom_object, if_neg (by simpa using fresh), keys, Value.Tree.text,
        zipWith_map_right, Table.keys, zipWith_map_left,
        zipWith_eq_map_of_forall₂ ((forall₂_map_left_iff.mp inside).imp ?_)]
      intro entry branch same
      rw [same]

/-- A printer writes a value as the text of its tree, and forgets what it has met on the way. -/
theorem Heap.Unfolds.formatWithin_eq {tree} (unfolds : heap.Unfolds [] value tree)
    (enough : heap.size < fuel) : Printer.formatWithin heap fuel value {} = (tree.text, {}) := by
  have bound := (unvisited_le heap.handles []).trans heap.card_handles_le
  rw [Printer.formatWithin_eq, unfolds.displayFrom_eq (bound.trans_lt enough)]

theorem Heap.Unfolds.display_eq {tree} (unfolds : heap.Unfolds [] value tree) :
    heap.display value = tree.text :=
  congrArg Prod.fst (unfolds.formatWithin_eq (Nat.lt_succ_self heap.size))

end Vimlet
