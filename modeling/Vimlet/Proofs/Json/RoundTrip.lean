import Mathlib.Data.List.Forall2
import Vimlet.Proofs.Json.Scalar
import Vimlet.Proofs.Table

/-!
# JSON texts of documents

Data without numbers, in which the keys of each mapping are distinct, is read back from its JSON
text as it was, in both layouts.
-/

namespace Vimlet

open List hiding Cursor

variable {cursor : Cursor} {rest gap text : List Char} {c : Char} {texts : List (List Char)}
  {key : String}

/-- Data that its JSON text determines: there are no numbers in it, and the keys of each mapping are
distinct. -/
inductive Document.Exact : Document → Prop
  | null : Exact .null
  | bool (b : Bool) : Exact (.bool b)
  | integer (n : Int) : Exact (.integer n)
  | text (text : String) : Exact (.text text)
  | sequence {items} (each : ∀ item ∈ items, Exact item) : Exact (.sequence items)
  | mapping {entries} (distinct : (entries.map (·.1)).Nodup)
      (each : ∀ entry ∈ entries, Exact entry.2) : Exact (.mapping entries)

namespace Json

/-! ### White space -/

/-- White space that may stand between a value and what follows it. -/
structure Gap (gap : List Char) : Prop where
  spaces : ∀ c ∈ gap, isSpace c = true
  separated {rest : List Char} (after : Separated rest) : Separated (gap ++ rest)

theorem gap_newline (layout : Layout) (depth : Nat) : Gap (layout.newline depth).toList where
  spaces c mem := by
    cases layout with
    | compact => cases mem
    | pretty =>
      rw [Layout.newline, String.toList_ofList, mem_cons, mem_replicate] at mem
      obtain rfl | ⟨_, rfl⟩ := mem <;> rfl
  separated after := by
    cases layout with
    | compact => exact after
    | pretty => simp [Layout.newline, Separated]

theorem separated_bracket (mark : c = ',' ∨ c = ']' ∨ c = '\x7d') (rest : List Char) :
    Separated (c :: rest) := by
  rintro _ ⟨⟩
  obtain rfl | rfl | rfl := mark <;> simp

variable {document : Document}

theorem skipSpaces_eq (here : cursor.rest = gap ++ c :: rest) (spaces : ∀ c ∈ gap, isSpace c = true)
    (ink : isSpace c = false) : cursor.skipSpaces = ⟨c :: rest, cursor.position + gap.length⟩ := by
  have outside : ∀ other ∈ (c :: rest).head?, isSpace other = false := by
    rintro _ ⟨⟩
    exact ink
  rw [Cursor.skipSpaces, Cursor.advance, here, (Lexer.span_append spaces outside).1, drop_left]

/-- The cursor goes past a character and the white space after it. -/
theorem advance_skipSpaces {mark} (here : cursor.rest = mark :: (gap ++ c :: rest))
    (spaces : ∀ c ∈ gap, isSpace c = true) (ink : isSpace c = false) :
    ∃ position, (cursor.advance 1).skipSpaces = ⟨c :: rest, position⟩ := by
  refine ⟨_, skipSpaces_eq ?_ spaces ink⟩
  rw [Cursor.advance, here]
  rfl

theorem advance_cons (c : Char) (rest : List Char) (position : Nat) :
    (Cursor.mk (c :: rest) position).advance 1 = ⟨rest, position + 1⟩ := rfl

/-! ### Values -/

section Equations

variable (fuel : Nat)

theorem value_text (here : cursor.rest = '"' :: rest) :
    value (fuel + 1) cursor = (do
      let (text, cursor) ← string (cursor.advance 1)
      return (.text text, cursor)) := by
  rw [value, here]
  rfl

theorem value_scalar (here : cursor.rest = c :: rest) (not_quote : c ≠ '"') (not_bracket : c ≠ '[')
    (not_brace : c ≠ '\x7b') : value (fuel + 1) cursor = scalar cursor := by
  rw [value, here]
  split
  · rename_i same
    exact absurd (List.cons.inj same).1 not_quote
  · rename_i same
    exact absurd (List.cons.inj same).1 not_bracket
  · rename_i same
    exact absurd (List.cons.inj same).1 not_brace
  · rfl

end Equations

/-- A text that starts with ink of ASCII other than a closing bracket, and from which an item is
read wherever it stands before a separator. -/
structure Spells {α : Type} (read : Nat → Cursor → Except Problem (α × Cursor)) (text : List Char)
    (item : α) : Prop where
  starts : ∃ c rest, text = c :: rest ∧ isSpace c = false ∧ c ≠ ']' ∧ c ≠ '\x7d' ∧ c.toNat < 0x80
  reads {fuel cursor rest} (enough : text.length ≤ fuel)
    (here : cursor.rest = text ++ rest) (separated : Separated rest) :
    ∃ after, read fuel cursor = .ok (item, ⟨rest, after⟩)

theorem spells_of_scalar (ink : isSpace c = false) (mark : c ∉ ['"', '[', ']', '\x7b', '\x7d'])
    (ascii : c.toNat < 0x80)
    (reads : ∀ cursor rest, cursor.rest = c :: text ++ rest → Separated rest →
      ∃ after, scalar cursor = .ok (document, ⟨rest, after⟩)) :
    Spells value (c :: text) document where
  starts := ⟨c, text, rfl, ink, by simp_all, by simp_all, ascii⟩
  reads {fuel cursor rest} enough here separated := by
    obtain ⟨fuel, rfl⟩ := Nat.exists_eq_add_one.mpr (Nat.lt_of_lt_of_le (by simp) enough)
    rw [value_scalar fuel here (by simp_all) (by simp_all) (by simp_all)]
    exact reads cursor rest here separated

theorem spells_null : Spells value ['n', 'u', 'l', 'l'] .null :=
  spells_of_scalar rfl (by decide) (by decide) fun cursor rest here _ =>
    ⟨cursor.position + 4, by
      simp [scalar, words, Cursor.word?, here, Cursor.advance, ← String.length_toList]⟩

theorem spells_true : Spells value ['t', 'r', 'u', 'e'] (.bool true) :=
  spells_of_scalar rfl (by decide) (by decide) fun cursor rest here _ =>
    ⟨cursor.position + 4, by
      simp [scalar, words, Cursor.word?, here, Cursor.advance, ← String.length_toList]⟩

theorem spells_false : Spells value ['f', 'a', 'l', 's', 'e'] (.bool false) :=
  spells_of_scalar rfl (by decide) (by decide) fun cursor rest here _ =>
    ⟨cursor.position + 5, by
      simp [scalar, words, Cursor.word?, here, Cursor.advance, ← String.length_toList]⟩

/-- The text of an integer starts with a digit, or with a minus and a digit. -/
theorem integerText_starts (n : Int) :
    ∃ c rest, (integerText n).toList = c :: rest ∧
      (c.isDigit = true ∨ c = '-' ∧ ∃ d more, rest = d :: more ∧ d.isDigit = true) := by
  have digits (n : Nat) : ∃ d more, Nat.toDigits 10 n = d :: more ∧ d.isDigit = true := by
    obtain ⟨d, more, split_eq⟩ :=
      List.exists_cons_of_ne_nil (Nat.toDigits_ne_nil (n := n) (b := 10))
    exact ⟨d, more, split_eq, Lexer.isDigit_of_mem (n := n) (split_eq ▸ List.mem_cons_self)⟩
  cases n with
  | ofNat n =>
    obtain ⟨d, more, split_eq, digit⟩ := digits n
    exact ⟨d, more, by rw [integerText, Nat.toList_repr, split_eq], .inl digit⟩
  | negSucc n =>
    refine ⟨'-', Nat.toDigits 10 (n + 1), ?_, .inr ⟨rfl, digits (n + 1)⟩⟩
    rw [integerText, String.toList_append, Nat.toList_repr]
    rfl

theorem spells_integer (n : Int) : Spells value (integerText n).toList (.integer n) := by
  obtain ⟨c, text, text_eq, start⟩ := integerText_starts n
  have differs {c : Char} (digit : c.isDigit = true) (other : Char)
      (letter : other.isDigit = false) : other ≠ c := by
    rintro rfl
    rw [digit] at letter
    cases letter
  have mark : c ∉ [' ', '\t', '\n', '\r', '"', '[', ']', '\x7b', '\x7d'] := by
    obtain digit | ⟨rfl, _⟩ := start
    · simp [(differs digit _ _).symm]
    · decide
  have ascii : c.toNat < 0x80 := by
    obtain digit | ⟨rfl, _⟩ := start
    · exact Lexer.toNat_lt_of_isDigit digit
    · decide
  have no_word (rest : List Char) : ∀ word ∈ words, ¬word.1.toList <+: c :: (text ++ rest) := by
    obtain digit | ⟨rfl, d, more, rfl, digit⟩ := start
    · simp [words, differs digit]
    · simp [words, differs digit]
  rw [text_eq]
  refine spells_of_scalar ?_ ?_ ascii fun cursor rest here separated => ?_
  · simp_all [isSpace]
  · simp_all
  · obtain ⟨after, read_back⟩ := number?_integerText separated (text_eq ▸ here)
    refine ⟨after, ?_⟩
    rw [scalar, findSome?_eq_none_iff.mpr]
    · simp only [read_back]
    · intro word mem
      simp [Cursor.word?, here, no_word rest word mem]

theorem spells_quote (text : String) : Spells value (quote text).toList (.text text) where
  starts := ⟨'"', _, toList_quote text, rfl, by decide, by decide, by decide⟩
  reads {fuel cursor rest} enough here _ := by
    have starts : cursor.rest = '"' :: (text.toList.flatMap escape ++ ['"'] ++ rest) := by
      rw [here, toList_quote, List.cons_append]
    obtain ⟨fuel, rfl⟩ := Nat.exists_eq_add_one.mpr
      (Nat.lt_of_lt_of_le (by simp [toList_quote]) enough)
    obtain ⟨after, read_back⟩ := string_quote here
    refine ⟨after, ?_⟩
    rw [value_text fuel starts, read_back]
    rfl

/-! ### Sequences and mappings -/

/-- How items between brackets are read: an item, and then a comma and more of them or the closing
bracket. -/
structure Brackets {α : Type} (left right : Char)
    (element : Nat → Cursor → Except Problem (α × Cursor))
    (loop : Nat → Cursor → Except Problem (List α × Cursor)) (make : List α → Document) : Prop where
  start : left = '[' ∨ left = '\x7b'
  mark : right = ']' ∨ right = '\x7d'
  opens (fuel : Nat) {cursor rest} (here : cursor.rest = left :: rest) : value (fuel + 1) cursor =
      if (cursor.advance 1).skipSpaces.rest.head? == some right then
        .ok (make [], (cursor.advance 1).skipSpaces.advance 1) else do
        let (items, cursor) ← loop fuel (cursor.advance 1).skipSpaces return (make items, cursor)
  last {fuel position cursor after rest item} (first : element fuel cursor = .ok (item, after))
    (closes : after.skipSpaces = ⟨right :: rest, position⟩) :
    loop (fuel + 1) cursor = .ok ([item], ⟨rest, position + 1⟩)
  more {fuel position cursor after final rest item items}
    (first : element fuel cursor = .ok (item, after))
    (comma : after.skipSpaces = ⟨',' :: rest, position⟩)
    (others : loop fuel (Cursor.mk rest (position + 1)).skipSpaces = .ok (items, final)) :
    loop (fuel + 1) cursor = .ok (item :: items, final)

theorem brackets_sequence : Brackets '[' ']' value items .sequence where
  start := .inl rfl
  mark := .inl rfl
  opens fuel _ _ here := by
    rw [value, here]
    rfl
  last first closes := by
    rw [items, first]
    simp only [bind, Except.bind, closes]
    rfl
  more first comma others := by
    rw [items, first]
    simp only [bind, Except.bind, comma, advance_cons, others]
    rfl

theorem brackets_mapping :
    Brackets '\x7b' '\x7d' (entry ∘ value) entries
      fun entries => .mapping (Table.ofList entries).entries where
  start := .inr rfl
  mark := .inr rfl
  opens fuel _ _ here := by
    rw [value, here]
    rfl
  last first closes := by
    rw [entries, show entry (value _) _ = _ from first]
    simp only [bind, Except.bind, closes]
    rfl
  more first comma others := by
    rw [entries, show entry (value _) _ = _ from first]
    simp only [bind, Except.bind, comma, advance_cons, others]
    rfl

theorem intercalate_starts (separator : List Char) (c : Char) (text : List Char)
    (texts : List (List Char)) :
    ∃ rest, separator.intercalate ((c :: text) :: texts) = c :: rest := by
  cases texts with
  | nil => exact ⟨text, intercalate_singleton⟩
  | cons next texts => exact ⟨_, intercalate_cons_cons⟩

/-- Items between brackets, with white space after the opening one, after commas and before the
closing one. -/
def enclosed (left right : Char) (gap closing : List Char) (texts : List (List Char)) : List Char :=
  if texts = [] then [left, right]
  else left :: (gap ++ ((',' :: gap).intercalate texts ++ (closing ++ [right])))

theorem toList_enclose (layout : Layout) (depth : Nat) {left right first last}
    (opens : left.toList = [first]) (closes : right.toList = [last]) (texts : List String) :
    (layout.enclose depth left right texts).toList =
      enclosed first last (layout.newline (depth + 1)).toList (layout.newline depth).toList
        (texts.map String.toList) := by
  have comma : ",".toList = [','] := rfl
  rw [Layout.enclose, enclosed]
  cases texts with
  | nil => simp [opens, closes]
  | cons text texts =>
    rw [if_neg (by simp), if_neg (by simp)]
    simp [String.toList_intercalate, opens, closes, comma]

namespace Brackets

variable {α : Type} {left right : Char} {element : Nat → Cursor → Except Problem (α × Cursor)}
  {loop : Nat → Cursor → Except Problem (List α × Cursor)} {make : List α → Document}
  (brackets : Brackets left right element loop make) {closing : List Char} (between : Gap gap)
  (last : Gap closing)
include brackets between last

/-- Items are read one by one up to the closing bracket. -/
theorem loop_intercalate {items} (spelled : Forall₂ (Spells element) texts items)
    (nonempty : texts ≠ []) {fuel} (enough : ((',' :: gap).intercalate texts).length < fuel)
    (here : cursor.rest = (',' :: gap).intercalate texts ++ (closing ++ right :: rest)) :
    ∃ after, loop fuel cursor = .ok (items, ⟨rest, after⟩) := by
  have ink : isSpace right = false := by obtain rfl | rfl := brackets.mark <;> rfl
  induction spelled generalizing fuel cursor with
  | nil => exact absurd rfl nonempty
  | @cons text item texts items head tail ih =>
    obtain ⟨fuel, rfl⟩ := Nat.exists_eq_add_one.mpr (Nat.zero_lt_of_lt enough)
    cases tail with
    | nil =>
      rw [intercalate_singleton] at enough here
      obtain ⟨after, first⟩ := head.reads (Nat.le_of_lt_succ enough) here
        (last.separated (separated_bracket (.inr brackets.mark) rest))
      exact ⟨_, brackets.last first (skipSpaces_eq rfl last.spaces ink)⟩
    | @cons next _ texts _ second others =>
      rw [intercalate_cons_cons] at enough here
      simp only [length_append, length_cons] at enough
      obtain ⟨c, more, rfl, c_ink, _⟩ := second.starts
      obtain ⟨joined, joined_eq⟩ := intercalate_starts (',' :: gap) c more texts
      have first_enough : text.length ≤ fuel := by omega
      have more_enough : ((',' :: gap).intercalate ((c :: more) :: texts)).length < fuel := by
        omega
      rw [append_assoc, append_assoc] at here
      obtain ⟨after, first⟩ := head.reads first_enough here (separated_bracket (.inl rfl) _)
      -- after the comma the cursor goes on to the first character of the next item
      have skipped : (Cursor.mk (gap ++ ((',' :: gap).intercalate ((c :: more) :: texts) ++
          (closing ++ right :: rest))) (after + 1)).skipSpaces.rest =
            (',' :: gap).intercalate ((c :: more) :: texts) ++ (closing ++ right :: rest) := by
        rw [joined_eq]
        exact congrArg Cursor.rest (skipSpaces_eq rfl between.spaces c_ink)
      obtain ⟨final, read_others⟩ := ih (cons_ne_nil _ _) more_enough skipped
      exact ⟨final, brackets.more first (skipSpaces_eq rfl (forall_mem_nil _) rfl)
        read_others⟩

/-- Items between brackets are read as what is made of them. -/
theorem spells {items} (spelled : Forall₂ (Spells element) texts items) :
    Spells value (enclosed left right gap closing texts) (make items) where
  starts := by
    have starts : ∃ rest, enclosed left right gap closing texts = left :: rest := by
      rw [enclosed]
      split <;> exact ⟨_, rfl⟩
    obtain ⟨rest, rest_eq⟩ := starts
    refine ⟨left, rest, rest_eq, ?_⟩
    obtain rfl | rfl := brackets.start <;> decide
  reads {fuel cursor rest} enough here separated := by
    have ink : isSpace right = false := by obtain rfl | rfl := brackets.mark <;> rfl
    have positive : 0 < (enclosed left right gap closing texts).length := by
      rw [enclosed]
      split <;> simp
    obtain ⟨fuel, rfl⟩ := Nat.exists_eq_add_one.mpr (Nat.lt_of_lt_of_le positive enough)
    rw [enclosed] at enough here
    cases spelled with
    | nil =>
      rw [if_pos rfl] at here
      obtain ⟨position, inside⟩ := advance_skipSpaces
        (show cursor.rest = left :: ([] ++ right :: rest) from here) (forall_mem_nil _) ink
      refine ⟨position + 1, ?_⟩
      rw [brackets.opens fuel here, inside, if_pos (by simp)]
      rfl
    | @cons text item texts items head tail =>
      rw [if_neg (cons_ne_nil _ _)] at enough here
      simp only [length_cons, length_append] at enough
      obtain ⟨c, more, rfl, c_ink, not_bracket, not_brace, _⟩ := head.starts
      obtain ⟨joined, joined_eq⟩ := intercalate_starts (',' :: gap) c more texts
      simp only [cons_append, append_assoc, nil_append] at here
      obtain ⟨position, inside⟩ := advance_skipSpaces (by rw [here, joined_eq]; rfl) between.spaces
        c_ink
      have inside_rest : (cursor.advance 1).skipSpaces.rest =
          (',' :: gap).intercalate ((c :: more) :: texts) ++ (closing ++ right :: rest) := by
        rw [inside, joined_eq]
        rfl
      have goes_on : ¬((cursor.advance 1).skipSpaces.rest.head? == some right) = true := by
        rw [inside]
        obtain rfl | rfl := brackets.mark <;> simpa
      have fuel_enough : ((',' :: gap).intercalate ((c :: more) :: texts)).length < fuel := by
        omega
      obtain ⟨after, read_items⟩ := brackets.loop_intercalate between last (.cons head tail)
        (cons_ne_nil _ _) fuel_enough inside_rest
      refine ⟨after, ?_⟩
      rw [brackets.opens fuel here, if_neg goes_on, read_items]
      rfl

end Brackets

theorem entry_eq {fuel position after final more item} (starts : cursor.rest = '"' :: more)
    (read_key : string (cursor.advance 1) = .ok (key, after))
    (colon : after.skipSpaces = ⟨':' :: rest, position⟩)
    (read_item : value fuel (Cursor.mk rest (position + 1)).skipSpaces = .ok (item, final)) :
    entry (value fuel) cursor = .ok ((key, item), final) := by
  have goes_on : ¬((':' :: rest).head? != some ':') = true := by simp
  rw [entry, starts]
  simp only [bind, Except.bind, read_key, colon, if_neg goes_on, advance_cons, read_item]
  rfl

theorem spells_entry {blank} (spaces : ∀ c ∈ blank, isSpace c = true)
    (spelled : Spells value text document) :
    Spells (entry ∘ value) ((quote key).toList ++ ':' :: (blank ++ text)) (key, document) where
  starts := ⟨'"', _, by rw [toList_quote, cons_append], rfl, by decide, by decide, by decide⟩
  reads {fuel cursor rest} enough here separated := by
    rw [append_assoc, cons_append, append_assoc] at here
    obtain ⟨more, starts⟩ : ∃ more, cursor.rest = '"' :: more :=
      ⟨_, by rw [here, toList_quote, cons_append]⟩
    obtain ⟨after, read_key⟩ := string_quote here
    obtain ⟨c, others, text_eq, ink, _⟩ := spelled.starts
    have skipped : (Cursor.mk (blank ++ (text ++ rest)) (after + 1)).skipSpaces.rest =
        text ++ rest := by
      rw [text_eq]
      exact congrArg Cursor.rest (skipSpaces_eq rfl spaces ink)
    have item_enough : text.length ≤ fuel := by
      simp only [length_append, length_cons] at enough
      omega
    obtain ⟨final, read_item⟩ := spelled.reads item_enough skipped separated
    exact ⟨final, entry_eq starts read_key (skipSpaces_eq rfl (forall_mem_nil _) rfl) read_item⟩

theorem colon_starts (layout : Layout) :
    ∃ blank, layout.colon.toList = ':' :: blank ∧ ∀ c ∈ blank, isSpace c = true := by
  cases layout with
  | compact => exact ⟨[], rfl, forall_mem_nil _⟩
  | pretty => exact ⟨[' '], rfl, by simp [isSpace]⟩

theorem writeItems_eq_map (layout : Layout) (depth : Nat) (items : List Document) :
    writeItems layout depth items = items.map (writeAt layout depth) := by
  induction items with
  | nil => rw [writeItems, map_nil]
  | cons item rest ih => rw [writeItems, ih, map_cons]

theorem writeEntries_eq_map (layout : Layout) (depth : Nat) (entries : List (String × Document)) :
    writeEntries layout depth entries = entries.map fun entry =>
      quote entry.1 ++ layout.colon ++ writeAt layout depth entry.2 := by
  induction entries with
  | nil => rw [writeEntries, map_nil]
  | cons entry rest ih => rw [writeEntries, ih, map_cons]

/-- Exact data is read back from what is written for it at any depth. -/
theorem spells_writeAt (exact : document.Exact) (layout : Layout) (depth : Nat) :
    Spells value (writeAt layout depth document).toList document := by
  induction exact generalizing depth with
  | null =>
    rw [writeAt]
    exact spells_null
  | bool b =>
    rw [writeAt]
    cases b with
    | true => exact spells_true
    | false => exact spells_false
  | integer n =>
    rw [writeAt]
    exact spells_integer n
  | text text =>
    rw [writeAt]
    exact spells_quote text
  | @sequence items _ ih =>
    rw [writeAt, toList_enclose layout depth rfl rfl, writeItems_eq_map]
    refine brackets_sequence.spells (gap_newline layout _) (gap_newline layout _) ?_
    rw [forall₂_map_left_iff, forall₂_map_left_iff]
    exact forall₂_same.mpr fun item mem => ih item mem (depth + 1)
  | @mapping entries distinct _ ih =>
    rw [writeAt, toList_enclose layout depth rfl rfl, writeEntries_eq_map]
    obtain ⟨blank, colon_eq, spaces⟩ := colon_starts layout
    have spelled : Forall₂ (Spells (entry ∘ value))
        ((entries.map fun entry =>
          quote entry.1 ++ layout.colon ++ writeAt layout (depth + 1) entry.2).map String.toList)
        entries := by
      rw [forall₂_map_left_iff, forall₂_map_left_iff]
      refine forall₂_same.mpr fun entry mem => ?_
      rw [String.toList_append, String.toList_append, colon_eq, append_assoc, cons_append]
      exact spells_entry spaces (ih entry mem (depth + 1))
    have whole := brackets_mapping.spells (gap_newline layout (depth + 1))
      (gap_newline layout depth) spelled
    rw [Table.ofList_of_nodup distinct] at whole
    exact whole

theorem readChars_write (exact : document.Exact) (layout : Layout) :
    readChars (write layout document).toList = .ok document := by
  have spelled := spells_writeAt exact layout 0
  rw [← write] at spelled
  generalize (write layout document).toList = text at spelled
  obtain ⟨c, rest, text_eq, ink, _, _, ascii⟩ := spelled.starts
  have no_mark : ¬(text.head? == some (Char.ofNat 0xFEFF)) = true := by
    rw [text_eq, head?_cons, beq_iff_eq, Option.some_inj]
    rintro rfl
    exact absurd ascii (by decide)
  have start : (Cursor.mk text 0).skipSpaces = ⟨text, 0⟩ := by
    rw [text_eq]
    exact skipSpaces_eq rfl (forall_mem_nil _) ink
  have here : (Cursor.mk text 0).rest = text ++ [] := (append_nil text).symm
  have enough : text.length ≤ 2 * text.length + 2 := by omega
  obtain ⟨after, read_back⟩ := spelled.reads enough here (by simp [Separated])
  rw [readChars, if_neg no_mark]
  simp only [start, read_back]
  rfl

end Json

end Vimlet
