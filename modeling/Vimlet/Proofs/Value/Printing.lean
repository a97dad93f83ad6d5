import Vimlet.Proofs.Value.Acyclic

/-!
# The text of values

A printer writes a value as the text of its tree, with a mark exactly where a container lies inside
itself. It ends on every value, and what it has printed before makes no difference.
-/

namespace Vimlet

/-- A printer that has printed some values, each with the contents that it had then. -/
def Printer.after (history : List (Heap × Value)) : Printer :=
  history.foldl (fun printer (heap, value) => (printer.format heap value).2) {}

theorem Printer.after_eq (history : List (Heap × Value)) : Printer.after history = {} :=
  List.foldl_fixed' (fun (heap, value) => congrArg Prod.snd (formatWithin_eq heap _ value {})) _

/-- A printer writes every value as the text of its tree, which has marks only if there are cycles,
whatever it has printed before and whatever the bound on paths beyond the number of containers. -/
theorem Printer.format_eq_text_of_tree (heap : Heap) (value : Value) :
    ∃ tree, (∀ other, heap.Unfolds [] value other ↔ other = tree) ∧
      (tree.marks = [] ↔ heap.Acyclic value) ∧
      ∀ history, (Printer.after history).format heap value = (tree.text, {}) ∧
        ∀ fuel > heap.size,
          formatWithin heap fuel value (Printer.after history) = (tree.text, {}) := by
  obtain ⟨tree, unfolds⟩ := Heap.Unfolds.exists_tree heap [] value
  have printed (history : List (Heap × Value)) (fuel : Nat) (enough : heap.size < fuel) :
      formatWithin heap fuel value (Printer.after history) = (tree.text, {}) := by
    rw [after_eq, unfolds.formatWithin_eq enough]
  refine ⟨tree, fun other => ?_, unfolds.marks_eq_nil_iff, fun history => ?_⟩
  · exact ⟨fun again => (unfolds.unique other again).symm, fun same => same ▸ unfolds⟩
  · exact ⟨printed history _ (Nat.lt_succ_self _), printed history⟩

/-- A List that is shared is printed twice, and the one around it is marked. -/
example : Heap.display { lists := #[{ items := #[.list 1, .list 1, .list 0] }, {}] } (.list 0) =
    "[[], [], [...]]" := rfl

end Vimlet
