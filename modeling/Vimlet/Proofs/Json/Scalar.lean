import Vimlet.Json.Reader
import Vimlet.Json.Writer
import Vimlet.Proofs.Expr.Lexing

/-!
# JSON texts of scalars

What is written for a string, an integer, a truth value or nothing is read back as it was, wherever
it stands before a comma, a closing bracket or a line break.
-/

namespace Vimlet.Json

open List

open Lexer (span_append isDigit_of_mem differs_of_isDigit ofDecimalDigits_toDigits)

/-! ### Strings -/

section Equations

variable (start position : Nat) (read rest : List Char)

theorem stringFrom_quote :
    stringFrom start 0 read position ('"' :: rest) =
      .ok (String.ofList read.reverse, ⟨rest, position + 1⟩) := rfl

theorem stringFrom_u :
    stringFrom start 0 read position ('\\' :: 'u' :: rest) = (do
      let (c, taken) ← unicodeEscape rest (position + 1)
      stringFrom start (taken + 1) (c :: read) (position + 1) ('u' :: rest)) := rfl

theorem stringFrom_letter {letter c} (short : unescape? letter = some c) (other : letter ≠ 'u') :
    stringFrom start 0 read position ('\\' :: letter :: rest) =
      stringFrom start 1 (c :: read) (position + 1) (letter :: rest) := by
  have backslash : ¬('\\' == '"') = true := by decide
  rw [stringFrom.eq_def]
  simp only [if_neg backslash, beq_self_eq_true, if_true]
  simp only [short]

theorem stringFrom_plain {c} (not_quote : ¬(c == '"') = true) (not_backslash : ¬(c == '\\') = true)
    (visible : ¬c.toNat < 0x20) :
    stringFrom start 0 read position (c :: rest) =
      stringFrom start 0 (c :: read) (position + 1) rest := by
  rw [stringFrom.eq_def]
  simp only [if_neg not_quote, if_neg not_backslash, if_neg visible]

end Equations

theorem stringFrom_skip (start position : Nat) (read skipped rest : List Char) :
    stringFrom start skipped.length read position (skipped ++ rest) =
      stringFrom start 0 read (position + skipped.length) rest := by
  induction skipped generalizing position with
  | nil => rfl
  | cons c skipped ih =>
    rw [List.length_cons, List.cons_append, stringFrom, ih]
    congr 1
    omega

/-- The four digits of a control character are read as its code. -/
theorem hexUnit?_hexDigits {code} (control : code < 0x20) (rest : List Char) :
    hexUnit? (Text.hexDigits 4 code ++ rest) = some code ∧
      (Text.hexDigits 4 code).length = 4 := by
  have digits : ∀ code < 0x20, (Text.hexDigits 4 code).length = 4 ∧
      ((Text.hexDigits 4 code).mapM hexValue?).map (ofDigitValues 16) = some code := by decide
  obtain ⟨four, spelled⟩ := digits code control
  refine ⟨?_, four⟩
  obtain ⟨values, values_eq, total⟩ := Option.map_eq_some_iff.mp spelled
  have long : ¬(Text.hexDigits 4 code ++ rest).length < 4 := by
    rw [List.length_append]
    omega
  rw [hexUnit?, if_neg long, List.take_left' four, values_eq, ← total]
  rfl

variable {rest : List Char}

theorem unicodeEscape_control {c} (control : c.toNat < 0x20) (more : rest ≠ []) (position : Nat) :
    unicodeEscape (Text.hexDigits 4 c.toNat ++ rest) position = .ok (c, 4) := by
  obtain ⟨unit_eq, four⟩ := hexUnit?_hexDigits control rest
  have long : ¬(Text.hexDigits 4 c.toNat ++ rest).length < 5 := by
    have := List.length_pos_iff.mpr more
    rw [List.length_append]
    omega
  have low : isHighSurrogate c.toNat = false := by
    have : ¬0xD800 ≤ c.toNat := by omega
    simp [isHighSurrogate, this]
  rw [unicodeEscape]
  simp only [if_neg long, unit_eq, low, Char.ofNat_toNat]
  rfl

theorem stringFrom_escape (start position : Nat) (read : List Char) (c : Char) (more : rest ≠ []) :
    ∃ after, stringFrom start 0 read position (escape c ++ rest) =
      stringFrom start 0 (c :: read) after rest := by
  have letter {mark : Char} (short : unescape? mark = some c) (other : mark ≠ 'u') :
      ∃ after, stringFrom start 0 read position ('\\' :: mark :: rest) =
        stringFrom start 0 (c :: read) after rest := by
    refine ⟨position + 1 + 1, ?_⟩
    rw [stringFrom_letter start position read rest short other]
    exact stringFrom_skip start (position + 1) (c :: read) [mark] rest
  unfold escape
  split
  · rename_i special
    obtain rfl | rfl : c = '"' ∨ c = '\\' := by simpa using special
    · exact letter rfl (by decide)
    · exact letter rfl (by decide)
  rename_i ordinary
  iterate 5
    split
    · rename_i same
      exact letter (by rw [eq_of_beq same]; rfl) (by decide)
  obtain ⟨not_quote, not_backslash⟩ : ¬(c == '"') = true ∧ ¬(c == '\\') = true := by
    simpa using ordinary
  split
  · rename_i control
    have read_back := unicodeEscape_control control more (position + 1)
    have four := (hexUnit?_hexDigits control rest).2
    refine ⟨position + 1 + 5, ?_⟩
    rw [List.cons_append, List.cons_append, stringFrom_u, read_back]
    have skipped := stringFrom_skip start (position + 1) (c :: read)
      ('u' :: Text.hexDigits 4 c.toNat) rest
    rw [List.length_cons, four] at skipped
    exact skipped
  · rename_i visible
    exact ⟨position + 1, stringFrom_plain start position read rest not_quote not_backslash visible⟩

theorem stringFrom_flatMap_escape (start position : Nat) (read text rest : List Char) :
    ∃ after, stringFrom start 0 read position (text.flatMap escape ++ '"' :: rest) =
      .ok (String.ofList (read.reverse ++ text), ⟨rest, after⟩) := by
  induction text generalizing position read with
  | nil =>
    refine ⟨position + 1, ?_⟩
    rw [flatMap_nil, nil_append, append_nil, stringFrom_quote]
  | cons c text ih =>
    obtain ⟨between, first⟩ := stringFrom_escape start position read c
      (show text.flatMap escape ++ '"' :: rest ≠ [] by simp)
    obtain ⟨after, others⟩ := ih between (c :: read)
    refine ⟨after, ?_⟩
    rw [List.flatMap_cons, List.append_assoc, first, others]
    simp

theorem toList_quote (text : String) :
    (quote text).toList = '"' :: (text.toList.flatMap escape ++ ['"']) := by
  simp [quote]

theorem string_quote {cursor : Cursor} {text} (here : cursor.rest = (quote text).toList ++ rest) :
    ∃ after, string (cursor.advance 1) = .ok (text, ⟨rest, after⟩) := by
  have inside : (cursor.advance 1).rest = text.toList.flatMap escape ++ '"' :: rest := by
    rw [Cursor.advance, here, toList_quote]
    simp
  rw [string, inside]
  obtain ⟨after, read_back⟩ := stringFrom_flatMap_escape ((cursor.advance 1).position - 1)
    (cursor.advance 1).position [] text.toList rest
  refine ⟨after, ?_⟩
  rw [read_back, reverse_nil, nil_append, String.ofList_toList]

/-! ### Integers -/

/-- The text ends, or a comma, a closing bracket or a line break follows. -/
def Separated (rest : List Char) : Prop :=
  ∀ c ∈ rest.head?, c = ',' ∨ c = ']' ∨ c = '\x7d' ∨ c = '\n'

theorem head_toDigits {n} (positive : 0 < n) :
    ∃ c digits, Nat.toDigits 10 n = c :: digits ∧ c ≠ '0' := by
  induction n using Nat.strong_induction_on with
  | _ n ih =>
    rw [Nat.toDigits_eq_if (by decide)]
    by_cases small : n < 10
    · have nonzero : ∀ n < 10, 0 < n → n.digitChar ≠ '0' := by decide
      rw [if_pos small]
      exact ⟨_, [], rfl, nonzero n small positive⟩
    · obtain ⟨c, digits, split_eq, other⟩ := ih (n / 10) (by omega) (by omega)
      rw [if_neg small, split_eq]
      exact ⟨c, _, rfl, other⟩

section Numbers

variable {rest : List Char} (separated : Separated rest)
include separated

theorem wholeDigits?_toDigits (n : Nat) :
    wholeDigits? (Nat.toDigits 10 n ++ rest) = some (Nat.toDigits 10 n) := by
  obtain rfl | positive := Nat.eq_zero_or_pos n
  · rfl
  obtain ⟨c, digits, split_eq, other⟩ := head_toDigits positive
  have outside : ∀ c ∈ rest.head?, c.isDigit = false := by
    intro c mem
    obtain rfl | rfl | rfl | rfl := separated c mem <;> rfl
  have taken := (span_append (fun c (mem : c ∈ Nat.toDigits 10 n) => isDigit_of_mem mem) outside).1
  rw [split_eq] at taken ⊢
  rw [cons_append] at taken ⊢
  rw [wholeDigits?, taken]
  · rfl
  · rintro more same
    exact other (List.cons.inj same).1

theorem fractionDigits_separated : fractionDigits rest = [] := by
  unfold fractionDigits
  split
  · have := separated '.' rfl
    simp at this
  · rfl

theorem power?_separated : power? rest = none := by
  cases rest with
  | nil => rfl
  | cons c rest =>
    have mark : (c == 'e' || c == 'E') = false := by
      obtain rfl | rfl | rfl | rfl := separated c rfl <;> rfl
    simp only [power?, mark, Bool.false_and]
    rfl

/-- Digits after the sign are read as an integer. -/
theorem number?_digits {cursor start} (negative : Bool) (n : Nat)
    (sign : (cursor.rest.head? == some '-') = negative)
    (start_eq : (if negative then cursor.advance 1 else cursor) = start)
    (digits : start.rest = Nat.toDigits 10 n ++ rest) :
    number? cursor = some (.integer (if negative then -n else n),
      ⟨rest, start.position + (Nat.toDigits 10 n).length⟩) := by
  have after : (start.advance (Nat.toDigits 10 n).length) =
      ⟨rest, start.position + (Nat.toDigits 10 n).length⟩ := by
    rw [Cursor.advance, digits, drop_left]
  rw [number?]
  simp only [sign, start_eq, digits, wholeDigits?_toDigits separated, Option.bind_eq_bind,
    Option.bind_some, after, fractionDigits_separated separated, isEmpty_nil, if_true,
    power?_separated separated, ofDecimalDigits_toDigits]

theorem number?_integerText {cursor n} (here : cursor.rest = (integerText n).toList ++ rest) :
    ∃ after, number? cursor = some (.integer n, ⟨rest, after⟩) := by
  cases n with
  | ofNat n =>
    rw [integerText, Nat.toList_repr] at here
    refine ⟨_, number?_digits separated false n ?_ (if_neg Bool.false_ne_true) here⟩
    obtain ⟨c, digits, split_eq⟩ := exists_cons_of_ne_nil Nat.toDigits_ne_nil
    have digit : c.isDigit = true := isDigit_of_mem (n := n) (split_eq ▸ mem_cons_self)
    rw [here, split_eq]
    simpa using differs_of_isDigit digit '-' rfl
  | negSucc n =>
    rw [integerText, String.toList_append, Nat.toList_repr] at here
    refine ⟨_, number?_digits separated true (n + 1) ?_ (if_pos rfl) ?_⟩
    · rw [here]
      rfl
    · rw [Cursor.advance, here]
      rfl

end Numbers

end Vimlet.Json
