import Vimlet.Proofs.Statement.Patterns
import Vimlet.Statement.Header

/-!
# Assignments to items

A `let` statement is divided at its first equals sign outside of quotes, which are told apart
without escapes. For the key of an item this agrees with the lexer if no quote is escaped in it that
would end it.
-/

namespace Vimlet

open List Text

variable {text rest front : List Char} {word : String}

/-! ### Texts of one token -/

namespace Lexer

variable {first : Token}

theorem Scans.isBlank (nothing : Scans text []) : ∀ c ∈ text, Text.isBlank c = true := by
  induction text with
  | nil => simp
  | cons c text ih =>
    cases nothing with
    | blank blank nothing => exact forall_mem_cons.mpr ⟨blank, ih nothing⟩

theorem Scans.single (single : Scans text [first]) :
    ∃ blanks middle rest, text = blanks ++ middle ∧ (∀ c ∈ blanks, Text.isBlank c = true) ∧
      Reads middle first rest ∧ ∀ c ∈ rest, Text.isBlank c = true := by
  induction text with
  | nil => cases single
  | cons c text ih =>
    cases single with
    | blank blank single =>
      obtain ⟨blanks, middle, rest, rfl, all_blank, reads⟩ := ih single
      exact ⟨c :: blanks, middle, rest, rfl, forall_mem_cons.mpr ⟨blank, all_blank⟩, reads⟩
    | token _ reads nothing => exact ⟨[], c :: text, _, rfl, by simp, reads, nothing.isBlank⟩

theorem Reads.continuesName (reads : Reads text (.var word) rest) :
    ∀ c ∈ word.toList, continuesName c = true := by
  cases reads with
  | @name c _ _ starts more =>
    have continues : Lexer.continuesName c = true := by
      rw [startsName, Bool.or_eq_true] at starts
      obtain letter | underscore := starts
      · simp [Lexer.continuesName, isAlphanumeric, letter]
      · simp [Lexer.continuesName, underscore]
    rw [String.toList_ofList]
    exact forall_mem_cons.mpr ⟨continues, fun d => mem_takeWhile_imp⟩

end Lexer

/-! ### Strings without escaped quotes -/

namespace Assignment

open Lexer

variable {content : List Char}

/-- A search for an equals sign in quotes goes past a text and is outside of quotes then. -/
def Passes (quote : Char) (inner : List Char) : Prop :=
  ∀ before after, splitFrom (some quote) before (inner ++ after) =
    splitFrom none (inner.reverse ++ before) after

theorem passes_quote (quote : Char) : Passes quote [quote] := by
  intro before after
  rw [singleton_append, splitFrom, beq_self_eq_true, if_pos rfl, reverse_singleton,
    singleton_append]

variable {c : Char} {before right : List Char}

theorem Passes.cons {quote inner} (passes : Passes quote inner) (other : c ≠ quote) :
    Passes quote (c :: inner) := by
  intro before after
  rw [cons_append, splitFrom, beq_false_of_ne other, if_neg Bool.false_ne_true, passes,
    reverse_cons, append_assoc, singleton_append]

theorem passes_of_doubleQuoted (read : doubleQuoted text = some (content, rest))
    (no_quote : '"' ∉ content) : ∃ inner, text = inner ++ rest ∧ Passes '"' inner := by
  fun_induction doubleQuoted text generalizing content with
  | case1 => cases read
  | case2 c text ih =>
    obtain ⟨⟨content, left⟩, inner_read, ⟨⟩⟩ := Option.map_eq_some_iff.mp read
    obtain ⟨other, no_quote⟩ := not_or.mp (mem_cons.not.mp no_quote)
    obtain ⟨inner, rfl, passes⟩ := ih inner_read no_quote
    have unescaped : c ≠ '"' := by
      rintro rfl
      exact other rfl
    exact ⟨_, rfl, (passes.cons unescaped).cons (by decide)⟩
  | case3 text =>
    cases read
    exact ⟨['"'], rfl, passes_quote _⟩
  | case4 c text _ no_end ih =>
    obtain ⟨⟨content, left⟩, inner_read, ⟨⟩⟩ := Option.map_eq_some_iff.mp read
    obtain ⟨inner, rfl, passes⟩ := ih inner_read (not_or.mp (mem_cons.not.mp no_quote)).2
    exact ⟨_, rfl, passes.cons no_end⟩

theorem passes_of_singleQuoted (read : singleQuoted text = some (content, rest))
    (unescaped : ¬['\\', '\''] <:+: text) : ∃ inner, text = inner ++ rest ∧ Passes '\'' inner := by
  fun_induction singleQuoted text generalizing content with
  | case1 => cases read
  | case2 text => exact absurd (prefix_append _ text).isInfix unescaped
  | case3 text ih =>
    obtain ⟨⟨content, left⟩, inner_read, ⟨⟩⟩ := Option.map_eq_some_iff.mp read
    obtain ⟨inner, rfl, passes⟩ := ih inner_read fun escaped =>
      unescaped (escaped.trans (suffix_append ['\'', '\''] _).isInfix)
    refine ⟨'\'' :: '\'' :: inner, rfl, fun before after => ?_⟩
    -- the first of the two quotes ends what the second one starts again
    rw [cons_append, cons_append, splitFrom]
    simp [splitFrom, passes _ after]
  | case4 text =>
    cases read
    exact ⟨['\''], rfl, passes_quote _⟩
  | case5 c text _ _ no_end ih =>
    obtain ⟨⟨content, left⟩, inner_read, ⟨⟩⟩ := Option.map_eq_some_iff.mp read
    obtain ⟨inner, rfl, passes⟩ := ih inner_read fun escaped =>
      unescaped (escaped.trans (suffix_cons c _).isInfix)
    exact ⟨_, rfl, passes.cons no_end⟩

/-- A string literal in double quotes has none in it, and in one in single quotes no backslash
stands before a quote. -/
def KeepsQuotes (key content : List Char) : Prop :=
  ((trimStart key).head? = some '"' → '"' ∉ content) ∧
    ((trimStart key).head? = some '\'' → ¬['\\', '\''] <:+: key)

instance (key content : List Char) : Decidable (KeepsQuotes key content) :=
  inferInstanceAs (Decidable (_ ∧ _))

/-! ### Divided texts -/

/-- A character that neither starts a string nor divides a text. -/
def IsPlain (c : Char) : Prop := c ≠ '"' ∧ c ≠ '\'' ∧ c ≠ '='

instance (c : Char) : Decidable (IsPlain c) :=
  inferInstanceAs (Decidable (c ≠ '"' ∧ c ≠ '\'' ∧ c ≠ '='))

theorem splitFrom_cons (plain : IsPlain c) (before after : List Char) :
    splitFrom none before (c :: after) = splitFrom none (c :: before) after := by
  obtain ⟨no_double, no_single, no_equals⟩ := plain
  rw [splitFrom]
  simp [no_double, no_single, no_equals]

theorem splitFrom_append (plain : ∀ c ∈ front, IsPlain c) (before after : List Char) :
    splitFrom none before (front ++ after) = splitFrom none (front.reverse ++ before) after := by
  induction front generalizing before with
  | nil => rfl
  | cons c front ih =>
    obtain ⟨first, plain⟩ := forall_mem_cons.mp plain
    rw [cons_append, splitFrom_cons first, ih plain, reverse_cons, append_assoc, singleton_append]

theorem isPlain_of_isBlank (blank : Text.isBlank c = true) : IsPlain c := by
  refine ⟨?_, ?_, ?_⟩
  all_goals
    rintro rfl
    exact absurd blank (by decide)

theorem isPlain_of_continuesName (continues : continuesName c = true) : IsPlain c := by
  refine ⟨?_, ?_, ?_⟩
  all_goals
    rintro rfl
    exact absurd continues (by decide)

theorem splitFrom_key {key} (is_string : tokens key = .ok [.val (.str word)])
    (keeps : KeepsQuotes key word.toList) (before after : List Char) :
    splitFrom none before (key ++ after) = splitFrom none (key.reverse ++ before) after := by
  obtain ⟨blanks, literal, rest, rfl, blank, reads, rest_blank⟩ :=
    (tokens_eq_ok.mp is_string).single
  obtain ⟨quote, inner, rfl, is_quote, passes⟩ : ∃ quote inner, literal = quote :: (inner ++ rest) ∧
      (quote = '"' ∨ quote = '\'') ∧ Passes quote inner := by
    rw [KeepsQuotes, Text.trimStart, Text.dropLeading, List.dropWhile_append_of_pos blank] at keeps
    cases reads with
    | double quoted =>
      rw [String.toList_ofList] at keeps
      obtain ⟨inner, rfl, passes⟩ := passes_of_doubleQuoted quoted (keeps.1 rfl)
      exact ⟨'"', inner, rfl, .inl rfl, passes⟩
    | @single more _ _ quoted =>
      have inside : more <:+: blanks ++ '\'' :: more :=
        ((suffix_cons _ more).trans (suffix_append _ _)).isInfix
      obtain ⟨inner, rfl, passes⟩ :=
        passes_of_singleQuoted quoted fun escaped => keeps.2 rfl (escaped.trans inside)
      exact ⟨'\'', inner, rfl, .inr rfl, passes⟩
    | number _ _ read => cases (number?_spec read).1
  calc splitFrom none before (blanks ++ quote :: (inner ++ rest) ++ after)
      = splitFrom none (blanks.reverse ++ before) (quote :: (inner ++ (rest ++ after))) := by
        rw [append_assoc, splitFrom_append fun c mem => isPlain_of_isBlank (blank c mem)]
        simp
    _ = splitFrom (some quote) (quote :: (blanks.reverse ++ before))
          (inner ++ (rest ++ after)) := by
        rw [splitFrom]
        simp [is_quote]
    _ = splitFrom none (rest.reverse ++ (inner.reverse ++ quote :: (blanks.reverse ++ before)))
          after := by
        rw [passes, splitFrom_append fun c mem => isPlain_of_isBlank (rest_blank c mem)]
    _ = _ := by simp

theorem trim_append {blanks} (first : ∀ d ∈ front.head?, Text.isBlank d = false)
    (visible : Text.isBlank c = false) (blank : ∀ d ∈ blanks, Text.isBlank d = true) :
    trim (front ++ c :: blanks) = front ++ [c] := by
  have started : trimStart (front ++ c :: blanks) = front ++ c :: blanks := by
    refine dropWhile_eq_self fun d head => ?_
    cases front with
    | nil => exact Option.some.inj head ▸ visible
    | cons d front => exact first _ head
  have backwards : (front ++ c :: blanks).reverse = blanks.reverse ++ c :: front.reverse := by simp
  rw [trim, started, trimEnd, dropTrailing, backwards,
    dropWhile_append_of_pos (by simpa using blank),
    dropWhile_cons_of_neg (by simp [visible])]
  simp

/-- Neither a comparison nor an operator ends with the character. -/
def IsNeutral (c : Char) : Prop :=
  c ∉ ['=', '!', '<', '>'] ∧ Compound.ofChar? c = none

theorem splitFrom_equals (last : ∀ c ∈ before.head?, c ∉ ['=', '!', '<', '>'])
    (no_comparison : ∀ c ∈ right.head?, c ≠ '=' ∧ c ≠ '~') :
    splitFrom none before ('=' :: right) = .ok (divide before right) := by
  have bare : isComparison before right = false := by
    cases before <;> cases right <;> simp_all [isComparison]
  rw [splitFrom]
  simp [bare]

theorem isNeutral_of_isBlank (blank : Text.isBlank c = true) : IsNeutral c := by
  refine ⟨fun mem => ?_, ?_⟩
  · simp only [mem_cons, not_mem_nil, or_false] at mem
    obtain rfl | rfl | rfl | rfl := mem <;> exact absurd blank (by decide)
  · unfold Compound.ofChar?
    split
    case h_6 => rfl
    all_goals exact absurd blank (by decide)

theorem divide_neutral (neutral : ∀ c ∈ before.head?, IsNeutral c) :
    divide before right = ⟨String.ofList (trim before.reverse), none,
      String.ofList (trim right)⟩ := by
  cases before with
  | nil => rfl
  | cons c before => simp [divide, (neutral c rfl).2]

theorem divide_operator {operator} (is_operator : Compound.ofChar? c = some operator)
    (neutral : ∀ c ∈ before.head?, IsNeutral c) :
    divide (c :: before) right = ⟨String.ofList (trim before.reverse), some operator,
      String.ofList (trim right)⟩ := by
  have no_dot : before.dropWhile (· == '.') = before := by
    refine dropWhile_eq_self fun d head => beq_false_of_ne ?_
    rintro rfl
    cases (neutral _ head).2
  simp [divide, is_operator, no_dot]

theorem toList_text (operator : Compound) : ∃ c, operator.text.toList = [c] ∧
    Compound.ofChar? c = some operator ∧ IsPlain c ∧ c ∉ ['=', '!', '<', '>'] := by
  cases operator <;> exact ⟨_, rfl, rfl, by decide, by decide⟩

/-- An assignment to an item is divided after the closing bracket, if its key is a string literal
without escaped quotes of its own kind. -/
theorem split_item {name key content : String} (is_name : lex name = .ok [.var name])
    (is_string : lex key = .ok [.val (.str content)])
    (keeps : KeepsQuotes key.toList content.toList) (operator : Option Compound)
    (blanks right : String) (blank : ∀ c ∈ blanks.toList, Text.isBlank c = true)
    (no_comparison : ∀ c ∈ right.toList.head?, c ≠ '=' ∧ c ≠ '~') :
    split (name ++ "[" ++ key ++ "]" ++ blanks ++ operator.elim "" Compound.text ++ "=" ++ right) =
      .ok ⟨name ++ "[" ++ key ++ "]", operator, strip right⟩ := by
  obtain ⟨_, _, _, _, _, reads, _⟩ := (tokens_eq_ok.mp is_name).single
  have name_continues := reads.continuesName
  let before := blanks.toList.reverse ++ ']' :: (key.toList.reverse ++ '[' :: name.toList.reverse)
  have up_to_operator (after : List Char) :
      splitFrom none [] (name.toList ++ '[' :: (key.toList ++ ']' :: (blanks.toList ++ after))) =
        splitFrom none before after := by
    rw [splitFrom_append fun c mem => isPlain_of_continuesName (name_continues c mem),
      splitFrom_cons (by decide), splitFrom_key is_string keeps, splitFrom_cons (by decide),
      splitFrom_append fun c mem => isPlain_of_isBlank (blank c mem)]
    simp [before]
  have neutral : ∀ c ∈ before.head?, IsNeutral c := by
    intro c head
    cases backwards : blanks.toList.reverse with
    | nil =>
      rw [show before.head? = some ']' by simp [before, backwards]] at head
      exact Option.some.inj head ▸ ⟨by decide, rfl⟩
    | cons d more =>
      rw [show before.head? = some d by simp [before, backwards]] at head
      have mem : d ∈ blanks.toList := mem_reverse.mp (backwards ▸ mem_cons_self)
      exact Option.some.inj head ▸ isNeutral_of_isBlank (blank d mem)
  have target : String.ofList (trim before.reverse) = name ++ "[" ++ key ++ "]" := by
    have forwards : before.reverse =
        (name.toList ++ '[' :: key.toList) ++ ']' :: blanks.toList := by simp [before]
    have visible : ∀ c ∈ name.toList ++ ['['], Text.isBlank c = false := by
      intro c mem
      obtain mem | mem := mem_append.mp mem
      · exact Pattern.isBlank_of_continuesName (name_continues c mem)
      · rw [mem_singleton.mp mem]
        decide
    have first : ∀ c ∈ (name.toList ++ '[' :: key.toList).head?, Text.isBlank c = false := by
      intro c head
      rw [append_cons, head?_append_of_ne_nil _ (by simp)] at head
      exact visible c (mem_of_mem_head? head)
    rw [forwards, trim_append first (by decide) blank]
    apply String.toList_inj.mp
    simp
  rw [split]
  cases operator with
  | none =>
    have text_eq : (name ++ "[" ++ key ++ "]" ++ blanks ++ "" ++ "=" ++ right).toList =
        name.toList ++ '[' :: (key.toList ++ ']' :: (blanks.toList ++ '=' :: right.toList)) := by
      simp
    rw [Option.elim_none, text_eq, up_to_operator,
      splitFrom_equals (fun c head => (neutral c head).1) no_comparison, divide_neutral neutral,
      target, strip]
  | some operator =>
    obtain ⟨c, is_text, is_operator, plain, bare⟩ := toList_text operator
    have text_eq :
        (name ++ "[" ++ key ++ "]" ++ blanks ++ operator.text ++ "=" ++ right).toList =
          name.toList ++
            '[' :: (key.toList ++ ']' :: (blanks.toList ++ c :: '=' :: right.toList)) := by
      simp [is_text]
    rw [Option.elim_some, text_eq, up_to_operator, splitFrom_cons plain,
      splitFrom_equals (by simpa using bare) no_comparison,
      divide_operator is_operator neutral, target, strip]

theorem split_item_quotes :
    lex "g:d" = .ok [.var "g:d"] ∧ lex " 'it''s \"=\"' " = .ok [.val (.str "it's \"=\"")] ∧
      split ("g:d" ++ "[" ++ " 'it''s \"=\"' " ++ "]" ++ " " ++ "." ++ "=" ++ " x == y") =
        .ok ⟨"g:d[ 'it''s \"=\"' ]", some .concat, "x == y"⟩ := by
  refine ⟨rfl, rfl, ?_⟩
  have divided := split_item (rfl : lex "g:d" = .ok [.var "g:d"])
    (rfl : lex " 'it''s \"=\"' " = .ok [.val (.str "it's \"=\"")]) (by decide) (some .concat) " "
    " x == y" (forall_mem_singleton.mpr (by decide)) (by simp)
  have stripped : strip " x == y" = "x == y" := by decide
  rw [stripped] at divided
  exact divided

/-- An escaped quote in a key ends the string for the division, but not for the lexer. -/
theorem split_item_escaped :
    lex "\"\\\"=\"" = .ok [.val (.str "\"=")] ∧
      split "d[\"\\\"=\"] = 1" = .ok ⟨"d[\"\\\"", none, "\"] = 1"⟩ :=
  ⟨rfl, rfl⟩

end Assignment

end Vimlet
