import Vimlet.Proofs.Expr.Lexing

/-!
# Reading on after a blank

A blank ends every token but a string, and it is part of no pair of characters. So a text that has
tokens has the same ones, all of them closed, if a blank and more text follow.
-/

namespace Vimlet.Lexer

open List Option

variable {text rest content : List Char} (more : List Char)

/-- A result of which more text is left, behind a blank. -/
def leaving {α : Type} (read : α × List Char) : α × List Char := (read.1, read.2 ++ ' ' :: more)

theorem span_blank (member : Char → Bool) (stops : member ' ' = false) (text : List Char) :
    (text ++ ' ' :: more).takeWhile member = text.takeWhile member ∧
      (text ++ ' ' :: more).dropWhile member = text.dropWhile member ++ ' ' :: more := by
  induction text with
  | nil => simp [stops]
  | cons c text ih => cases taken : member c <;> simp [taken, ih]

/-! ### Numbers and operators -/

theorem basedNumber?_blank (text : List Char) :
    basedNumber? (text ++ ' ' :: more) = (basedNumber? text).map (leaving more) := by
  match text with
  | [] => simp [basedNumber?]
  | [c] =>
    -- the blank is in the place of the letter of a base, and is none
    by_cases zero : c = '0'
    · rw [zero]
      rfl
    · simp [basedNumber?, zero]
  | c :: letter :: text =>
    by_cases zero : c = '0'
    · simp only [zero, basedNumber?, cons_append]
      cases baseOfLetter? letter with
      | none => rfl
      | some base =>
        obtain ⟨digits, after⟩ := span_blank more (isBaseDigit base) rfl text
        simp only [bind_eq_bind, bind_some, digits, after]
        split <;> rfl
    · simp [basedNumber?, zero]

theorem splitSign_blank (text : List Char) :
    splitSign (text ++ ' ' :: more) = leaving more (splitSign text) := by
  cases text with
  | nil => rfl
  | cons c text =>
    by_cases minus : c = '-'
    · rw [minus]
      rfl
    · by_cases plus : c = '+'
      · rw [plus]
        rfl
      · simp [splitSign, leaving, minus, plus]

theorem splitPower_blank (text : List Char) :
    splitPower (text ++ ' ' :: more) = leaving more (splitPower text) := by
  cases text with
  | nil => rfl
  | cons mark text =>
    obtain ⟨digits, after⟩ := span_blank more Text.isDecimal rfl (splitSign text).2
    simp only [cons_append, splitPower, splitSign_blank, leaving, digits, after]
    split <;> rfl

theorem pointNumber?_blank (text : List Char) :
    pointNumber? (text ++ ' ' :: more) = (pointNumber? text).map (leaving more) := by
  obtain ⟨whole, after⟩ := span_blank more Text.isDecimal rfl text
  simp only [pointNumber?, whole, after]
  cases text.dropWhile Text.isDecimal with
  | nil => rfl
  | cons c fraction =>
    obtain ⟨digits, after⟩ := span_blank more Text.isDecimal rfl fraction
    by_cases point : c = '.'
    · simp only [point, cons_append, digits, after, splitPower_blank]
      split <;> rfl
    · simp [point]

theorem number?_blank (text : List Char) :
    number? (text ++ ' ' :: more) = (number? text).map (leaving more) := by
  have whole : wholeNumber? (text ++ ' ' :: more) = (wholeNumber? text).map (leaving more) := by
    obtain ⟨digits, after⟩ := span_blank more Text.isDecimal rfl text
    simp only [wholeNumber?, digits, after]
    split <;> rfl
  rw [number?, number?, basedNumber?_blank, pointNumber?_blank, whole, map_or, map_or]

theorem operator?_blank (c : Char) (text : List Char) :
    operator? (c :: text ++ ' ' :: more) = (operator? (c :: text)).map (leaving more) := by
  cases text with
  | nil =>
    have no_pair : Op.ofPair? c ' ' = none := by simp [Op.ofPair?]
    simp only [cons_append, nil_append, operator?, no_pair, Option.map_map]
    rfl
  | cons d text =>
    simp only [cons_append, operator?]
    cases Op.ofPair? c d with
    | some symbol => rfl
    | none =>
      simp only [Option.map_map]
      rfl

/-! ### Strings -/

theorem doubleQuoted_append (read : doubleQuoted text = some (content, rest)) :
    doubleQuoted (text ++ more) = some (content, rest ++ more) := by
  fun_induction doubleQuoted text generalizing content with
  | case1 => cases read
  | case2 c text ih =>
    obtain ⟨⟨inner, left⟩, inner_read, ⟨⟩⟩ := map_eq_some_iff.mp read
    rw [cons_append, cons_append, doubleQuoted, ih inner_read]
    rfl
  | case3 text =>
    cases read
    rfl
  | case4 c text unescaped no_end ih =>
    obtain ⟨⟨inner, left⟩, inner_read, ⟨⟩⟩ := map_eq_some_iff.mp read
    rw [cons_append, doubleQuoted, ih inner_read]
    · rfl
    · -- a backslash at the end of the text would have left the string open
      rintro d others rfl split
      cases text with
      | nil => cases inner_read
      | cons d text => exact unescaped d text rfl rfl
    · exact no_end

theorem singleQuoted_blank (read : singleQuoted text = some (content, rest)) :
    singleQuoted (text ++ ' ' :: more) = some (content, rest ++ ' ' :: more) := by
  have no_quote {text : List Char} (other : ∀ after, text = '\'' :: after → False) :
      (text ++ ' ' :: more).head? ≠ some '\'' := by
    cases text with
    | nil => simp
    | cons d text =>
      rintro ⟨⟩
      exact other text rfl
  fun_induction singleQuoted text generalizing content with
  | case1 => cases read
  | case2 text ih | case3 text ih =>
    obtain ⟨⟨inner, left⟩, inner_read, ⟨⟩⟩ := map_eq_some_iff.mp read
    rw [cons_append, cons_append, singleQuoted, ih inner_read]
    rfl
  | case4 text other =>
    cases read
    exact singleQuoted_end (no_quote other)
  | case5 c text unescaped _ no_end ih =>
    obtain ⟨⟨inner, left⟩, inner_read, ⟨⟩⟩ := map_eq_some_iff.mp read
    rw [cons_append, singleQuoted_plain no_end, ih inner_read]
    · rfl
    · exact fun escape => no_quote fun after => unescaped after escape

/-! ### Tokens -/

/-- A token is read as it is at the end of a text. -/
theorem Reads.before_blank {first} (reads : Reads text first rest) :
    Reads (text ++ ' ' :: more) first (rest ++ ' ' :: more) := by
  cases reads with
  | double quoted => exact .double (doubleQuoted_append _ quoted)
  | single quoted => exact .single (singleQuoted_blank more quoted)
  | number unquoted digit read =>
    refine .number unquoted digit ?_
    rw [append_eq, ← cons_append, number?_blank, read]
    rfl
  | name unquoted no_digit starts text =>
    obtain ⟨taken, dropped⟩ := span_blank more continuesName rfl text
    rw [← taken, ← dropped]
    exact .name unquoted no_digit starts _
  | operator unquoted no_digit no_name read =>
    refine .operator unquoted no_digit no_name ?_
    rw [append_eq, ← cons_append, operator?_blank, read]
    rfl

theorem tokens_before_blank {found} (scans : Scans text found) :
    tokens (text ++ ' ' :: more) = (tokens more).map (found ++ ·) := by
  induction scans with
  | nil =>
    rw [nil_append, tokens_blank rfl]
    cases tokens more <;> rfl
  | blank blank _ ih => rw [cons_append, tokens_blank blank, ih]
  | token ink reads _ ih =>
    have read := token_eq_ok.mpr (reads.before_blank more)
    rw [cons_append] at read ⊢
    simp only [tokens_eq_bind ink, read, ih, bind, Except.bind]
    cases tokens more <;> rfl

end Vimlet.Lexer

namespace Vimlet

open Lexer

/-- A text that has tokens can be read on its own: with a blank and another text after it, it has its
tokens and those of the other text, and what stops the reading of the other text stops this one. -/
theorem lex_append_blank (front back : String) {found : List Token} (read : lex front = .ok found) :
    lex (front ++ " " ++ back) = (lex back).map (found ++ ·) := by
  have characters : (front ++ " " ++ back).toList = front.toList ++ ' ' :: back.toList := by simp
  rw [lex, characters, tokens_before_blank _ (tokens_eq_ok.mp read)]
  rfl

/-- The strings stay apart, as without the blank they would not, and one that is open is so in both. -/
theorem lex_append_blank_point :
    lex ".'a'" = .ok [.op .dot, .val (.str "a")] ∧
      lex (".'a'" ++ " " ++ "'b'. .") =
        .ok [.op .dot, .val (.str "a"), .val (.str "b"), .op .dot, .op .dot] ∧
      lex (".'a'" ++ " " ++ "\"b") = .error (.fault (.unterminatedString "\"b")) :=
  ⟨rfl, lex_append_blank ".'a'" "'b'. ." rfl, lex_append_blank ".'a'" "\"b" rfl⟩

end Vimlet
