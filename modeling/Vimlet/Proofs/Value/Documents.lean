import Vimlet.Document
import Vimlet.Proofs.Value.Acyclic

/-!
# The data of values

The data of a value is its tree, with the names of functions and the texts of numbers that are not
finite. A value whose tree has marks has no data.
-/

namespace Vimlet

open Relation

/-- The text of a number that is not finite. -/
def specialText (x : Float) : String :=
  if x.isNaN then "nan" else if x < 0 then "-inf" else "inf"

open Float.Model in
theorem Dyadic.ofFloat?_eq_none {x} (infinite : x.isFinite = false) : Dyadic.ofFloat? x = none := by
  let bits : BitVec Format.binary64.numBits := x.toModel.toBits.toBitVec
  have field : (UnpackedFloat.unpackExponent bits).toNat =
      x.toBits.toNat / Nat.pow 2 52 % Nat.pow 2 11 := by
    simp only [UnpackedFloat.unpackExponent, BitVec.toNat_cast, BitVec.extractLsb_toNat,
      Nat.shiftRight_eq_div_pow]
    rfl
  have ones : UnpackedFloat.unpackExponent bits = -1#11 := by
    by_contra other
    have finite : (UnpackedFloat.unpack Format.binary64 bits).isFinite = true := by
      delta UnpackedFloat.unpack
      rw [if_neg other]
      by_cases subnormal : UnpackedFloat.unpackExponent bits = 0#11
      · rw [if_pos subnormal]
        by_cases zero : UnpackedFloat.unpackMantissa bits = 0#52
        · rw [dif_pos zero]
          rfl
        · rw [dif_neg zero]
          rfl
      · rw [if_neg subnormal]
        rfl
    exact absurd infinite (by rw [show x.isFinite = true from finite]; simp)
  rw [ofFloat?, ← field, ones]
  rfl

theorem text_of_not_finite {x} (infinite : x.isFinite = false) :
    NumberFormat.script.text x = specialText x := by
  rw [NumberFormat.text, Dyadic.ofFloat?_eq_none infinite, specialText]

/-- The data of a value that is no container. -/
def Value.datum : (value : Value) → value.handle? = none → Document
  | .nil, _ => .null
  | .bool b, _ => .bool b
  | .integer n, _ => .integer n
  | .number x, _ => if x.isFinite then .number x else .text (specialText x)
  | .str text, _ => .text text
  | .function ref, _ => .text ref.name

/-- The data of a tree. Only trees without marks are data. -/
def Value.Tree.document : Value.Tree → Document
  | .leaf value scalar => value.datum scalar
  | .mark _ => .null
  | .node none branches => .sequence (branches.map document)
  | .node (some keys) branches => .mapping (keys.zip (branches.map document))

/-- A result, unless there are marks. The first one is at fault. -/
def unlessMarked {α : Type} (marks : List Handle) (result : α) : Except Fault α :=
  match marks with
  | [] => .ok result
  | handle :: _ => .error (.cyclicReference handle.value.kind)

theorem map_unlessMarked {α β : Type} (f : α → β) (marks : List Handle) (result : α) :
    f <$> unlessMarked marks result = unlessMarked marks (f result) := by
  cases marks <;> rfl

/-- The first mark of all is the first one of the first item that has marks. -/
theorem mapM_unlessMarked {α β γ : Type} {act : α → Except Fault γ} {marks : β → List Handle}
    (result : α × β → γ) {items others}
    (all : List.Forall₂ (fun item other =>
      act item = unlessMarked (marks other) (result (item, other))) items others) :
    items.mapM act = unlessMarked (others.flatMap marks) ((items.zip others).map result) := by
  induction all with
  | nil => rfl
  | @cons item other rest more head _ ih =>
    rw [List.mapM_cons, head, ih, List.flatMap_cons]
    cases marks other with
    | cons => rfl
    | nil => cases more.flatMap marks <;> rfl

theorem Value.datum_number (x : Float) : (Value.number x).datum rfl = Document.ofFloat x := by
  change (if x.isFinite then _ else _) = if x.isFinite then _ else _
  split
  · rfl
  · rename_i special
    rw [text_of_not_finite (by simpa using special)]

namespace Heap

variable {heap : Heap} {around : List Handle} {value : Value} {tree : Value.Tree}

theorem documentFrom_list (heap : Heap) (fuel : Nat) (path : List Handle) (cell : Nat) :
    heap.documentFrom (fuel + 1) path (.list cell) =
      if path.contains (.list cell) then .error (.cyclicReference .list)
      else .sequence <$> (heap.list cell).mapM (heap.documentFrom fuel (.list cell :: path)) := by
  rw [documentFrom]

theorem documentFrom_object (heap : Heap) (fuel : Nat) (path : List Handle) (cell : Nat) :
    heap.documentFrom (fuel + 1) path (.object cell) =
      if path.contains (.object cell) then .error (.cyclicReference .object)
      else .mapping <$> (heap.object cell).entries.mapM fun entry =>
        (entry.1, ·) <$> heap.documentFrom fuel (.object cell :: path) entry.2 := by
  rw [documentFrom]
  rfl

/-- The data of a value is that of its tree, unless paths are cut off. -/
theorem Unfolds.documentFrom_eq (unfolds : heap.Unfolds around value tree) {fuel}
    (enough : unvisited heap.handles around < fuel) :
    heap.documentFrom fuel around value = unlessMarked tree.marks tree.document := by
  refine unfolds.walk (motive := fun fuel around value tree =>
    heap.documentFrom fuel around value = unlessMarked tree.marks tree.document)
    ?leaf ?mark ?node enough
  case leaf =>
    intro fuel around value scalar
    rw [Value.Tree.marks, Value.Tree.document, unlessMarked]
    cases value with
    | list | object => cases scalar
    | number x => rw [documentFrom, Value.datum_number]
    | nil | bool | integer | str | function => rfl
  case mark =>
    intro fuel around handle again
    rw [Value.Tree.marks]
    cases handle with
    | list cell => exact (documentFrom_list ..).trans (if_pos (by simpa using again))
    | object cell => exact (documentFrom_object ..).trans (if_pos (by simpa using again))
  case node =>
    intro fuel around handle branches fresh inside
    rw [Value.Tree.marks]
    cases handle with
    | list cell =>
      rw [contents] at inside
      rw [Handle.value, documentFrom_list, if_neg (by simpa using fresh), keys,
        Value.Tree.document, mapM_unlessMarked (Value.Tree.document ∘ Prod.snd) inside,
        map_unlessMarked, ← List.map_map, List.map_snd_zip inside.length_eq.ge]
    | object cell =>
      rw [Handle.value, documentFrom_object, if_neg (by simpa using fresh), keys,
        Value.Tree.document, mapM_unlessMarked (fun pair => (pair.1.1, pair.2.document))
          ((List.forall₂_map_left_iff.mp inside).imp ?_), map_unlessMarked, Table.keys,
        List.zip_map]
      · rfl
      · intro entry branch same
        rw [same, map_unlessMarked]

theorem Unfolds.document_eq (unfolds : heap.Unfolds [] value tree) :
    heap.document value = unlessMarked tree.marks tree.document := by
  have bound := (unvisited_le heap.handles []).trans heap.card_handles_le
  exact unfolds.documentFrom_eq (Nat.lt_succ_of_le bound)

/-- A value has no data exactly if some container that can be reached from it can reach itself.
Otherwise its data is that of its tree, whatever the bound on paths beyond the number of containers.
-/
theorem document_eq_document_of_tree (heap : Heap) (value : Value) :
    ((∃ kind, heap.document value = .error (.cyclicReference kind)) ↔
      ∃ handle, heap.Reaches value handle ∧ TransGen heap.Holds handle.value handle.value) ∧
    ((¬∃ handle, heap.Reaches value handle ∧ TransGen heap.Holds handle.value handle.value) →
      ∃ tree, heap.Unfolds [] value tree ∧ tree.marks = [] ∧
        heap.document value = .ok tree.document) ∧
    ∀ fuel > heap.size, heap.documentFrom fuel [] value = heap.document value := by
  obtain ⟨tree, unfolds⟩ := Unfolds.exists_tree heap [] value
  have bound := (unvisited_le heap.handles []).trans heap.card_handles_le
  have document_eq := unfolds.document_eq
  have unmarked_iff := unfolds.marks_eq_nil_iff.trans acyclic_iff
  refine ⟨⟨?_, fun cyclic => ?_⟩, fun acyclic => ?_, fun fuel enough => ?_⟩
  · rintro ⟨kind, refused⟩
    by_contra acyclic
    rw [document_eq, unmarked_iff.mpr acyclic] at refused
    cases refused
  · obtain ⟨handle, rest, marks_eq⟩ := List.exists_cons_of_ne_nil fun unmarked =>
      unmarked_iff.mp unmarked cyclic
    exact ⟨handle.value.kind, by rw [document_eq, marks_eq, unlessMarked]⟩
  · have unmarked := unmarked_iff.mpr acyclic
    exact ⟨tree, unfolds, unmarked, by rw [document_eq, unmarked, unlessMarked]⟩
  · rw [unfolds.documentFrom_eq (bound.trans_lt enough), document_eq]

end Heap

end Vimlet
