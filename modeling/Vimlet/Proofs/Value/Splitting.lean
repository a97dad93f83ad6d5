import Mathlib.Data.List.Infix
import Vimlet.Builtin.Text
import Vimlet.Proofs.Session.Ending
import Vimlet.Proofs.Value.Changes

/-!
# Splitting and joining

A text is split at the leftmost occurrences of a separator that do not overlap. No part has the
separator in it, and the parts with the separator between them are the text again.
-/

namespace Vimlet

open List

namespace Text

variable {separator part text : List Char} {skip : Nat}

theorem splitFrom_ne_nil (separator : List Char) (skip : Nat) (part text : List Char) :
    splitFrom separator skip part text ≠ [] := by
  fun_induction splitFrom separator skip part text with
  | case1 => exact cons_ne_nil _ _
  | case2 _ _ _ _ ih => exact ih
  | case3 => exact cons_ne_nil _ _
  | case4 _ _ _ _ ih => exact ih

/-- The parts are joined to what has been collected and what is left after the separator. -/
theorem intercalate_splitFrom (nonempty : separator ≠ []) (skip : Nat) (part text : List Char) :
    separator.intercalate (splitFrom separator skip part text) =
      part.reverse ++ text.drop skip := by
  fun_induction splitFrom separator skip part text with
  | case1 => simp
  | case2 skip part c rest ih => rw [ih, drop_succ_cons]
  | case3 part c rest found ih =>
    obtain ⟨after, split⟩ := isPrefixOf_iff_prefix.mp found
    obtain ⟨d, more, rfl⟩ := exists_cons_of_ne_nil nonempty
    obtain ⟨rfl, rfl⟩ := cons.inj split
    rw [intercalate_cons_of_ne_nil (splitFrom_ne_nil _ _ _ _), ih]
    simp
  | case4 part c rest _ ih =>
    rw [ih]
    simp

/-- No occurrence of the separator starts in what has been collected, so none is in a part. -/
theorem not_infix_of_mem_splitFrom (nonempty : separator ≠ [])
    (none_starts : ∀ start < part.length,
      ¬separator <+: (part.reverse ++ text.drop skip).drop start) :
    ∀ found ∈ splitFrom separator skip part text, ¬separator <:+: found := by
  have complete {part text : List Char} (none_starts : ∀ start < part.length,
      ¬separator <+: (part.reverse ++ text).drop start) : ¬separator <:+: part.reverse := by
    rintro ⟨front, back, split⟩
    have longer : front.length < part.length := by
      have := congrArg length split
      have := length_pos_of_ne_nil nonempty
      simp only [length_append, length_reverse] at *
      omega
    refine none_starts front.length longer ⟨back ++ text, ?_⟩
    simp [← split]
  fun_induction splitFrom separator skip part text with
  | case1 skip part => simpa using complete none_starts
  | case2 skip part c rest ih => exact ih none_starts
  | case3 part c rest found ih =>
    exact forall_mem_cons.mpr ⟨complete none_starts, ih (by simp)⟩
  | case4 part c rest other ih =>
    refine ih fun start inside => ?_
    obtain earlier | rfl := Nat.lt_succ_iff_lt_or_eq.mp inside
    · simpa using none_starts start earlier
    · simpa [ isPrefixOf_iff_prefix] using other

end Text

namespace TextFunction

theorem splitToList_eq (text : String) {separator} (nonempty : separator ≠ "") (keepEmpty : Value)
    (heap : Heap) :
    ∃ later, splitToList (.str text) (.str separator) keepEmpty heap =
        .ok (.list heap.lists.size) later ∧
      later.list heap.lists.size = (((Text.split separator.toList text.toList).map
        String.ofList).filter fun part =>
          heap.truthOf (fun _ => true) keepEmpty || part ≠ "").map .str := by
  have not_empty : separator.toList.isEmpty = false := by simpa using nonempty
  refine ⟨_, rfl, (Heap.contents_pushList heap _).trans ?_⟩
  simp only [splitText, not_empty, Heap.text]
  cases heap.truthOf (fun _ => true) keepEmpty with
  | true => simp
  | false =>
    have same (part : List Char) : (!part.isEmpty) = decide (String.ofList part ≠ "") := by
      cases part <;> simp
    simp [same, filter_map, Function.comp_def]

theorem join_eq {heap cell parts} (strings : heap.list cell = parts.map .str) (separator : String) :
    apply .join [.list cell, .str separator] heap = .ok (.str (separator.intercalate parts)) heap := by
  change EStateM.Result.ok (Value.str (separator.intercalate ((heap.list cell).map heap.text))) heap =
    _
  rw [strings, map_map]
  exact congrArg (fun parts => EStateM.Result.ok (Value.str (separator.intercalate parts)) heap)
    (map_id parts)

/-- A text that is split at a separator, with empty parts kept, is joined to the text again, and no
part has the separator in it. -/
theorem join_split (text separator : String) (nonempty : separator ≠ "") (heap : Heap) :
    ∃ (parts : List String) (cell cell' : Nat) (later later' : Heap),
      apply .split [.str text, .str separator, .integer 1] heap = .ok (.list cell) later ∧
        later.list cell = parts.map .str ∧
        apply .join [.list cell, .str separator] later = .ok (.str text) later ∧
        (∀ part ∈ parts, ¬separator.toList <:+: part.toList) ∧
        apply .split [.str text, .str separator] heap = .ok (.list cell') later' ∧
        later'.list cell' = (parts.filter (· ≠ "")).map .str := by
  have nonempty_list : separator.toList ≠ [] := by simpa using nonempty
  let parts := (Text.split separator.toList text.toList).map String.ofList
  obtain ⟨later, split, split_parts⟩ := splitToList_eq text nonempty (.integer 1) heap
  obtain ⟨later', short_split, short_parts⟩ := splitToList_eq text nonempty .nil heap
  have all_parts : later.list heap.lists.size = parts.map .str := by
    simpa [Heap.truthOf, parts] using split_parts
  have joined : separator.intercalate parts = text := by
    rw [← String.toList_inj, String.toList_intercalate, map_map]
    have inverse : String.toList ∘ String.ofList = id := funext fun _ => String.toList_ofList
    rw [inverse, map_id]
    exact Text.intercalate_splitFrom nonempty_list 0 [] text.toList
  have none_inside : ∀ part ∈ parts, ¬separator.toList <:+: part.toList := by
    refine forall_mem_map.mpr fun part found => ?_
    rw [String.toList_ofList]
    exact Text.not_infix_of_mem_splitFrom nonempty_list (by simp) part found
  exact ⟨parts, _, _, later, later', split, all_parts,
    (join_eq all_parts separator).trans (by rw [joined]), none_inside, short_split, short_parts⟩

theorem join_split_overlapping :
    "aa" ≠ "" ∧ ∃ (parts : List String) (cell cell' : Nat) (later later' : Heap),
      apply .split [.str "aaabaa", .str "aa", .integer 1] {} = .ok (.list cell) later ∧
        later.list cell = parts.map .str ∧
        apply .join [.list cell, .str "aa"] later = .ok (.str "aaabaa") later ∧
        (∀ part ∈ parts, ¬"aa".toList <:+: part.toList) ∧
        apply .split [.str "aaabaa", .str "aa"] {} = .ok (.list cell') later' ∧
        later'.list cell' = (parts.filter (· ≠ "")).map .str :=
  ⟨by decide, join_split "aaabaa" "aa" (by decide) {}⟩

end TextFunction

end Vimlet
