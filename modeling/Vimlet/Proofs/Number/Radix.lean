import Mathlib.Tactic.FinCases
import Mathlib.Tactic.IntervalCases
import Vimlet.Builtin.Text
import Vimlet.Proofs.Expr.Lexing
import Vimlet.Proofs.Line.Joining

/-!
# Integers in four bases

An integer is read as itself in every base that `str2nr` knows, whatever text follows its digits.
-/

namespace Vimlet

open List Option

variable {value : Nat} {digits rest : List Char} {n : Int}

open Lexer TextFunction

/-- What stands before the digits of a base. -/
def baseMark : Nat → String
  | 2 => "0b"
  | 8 => "0o"
  | 16 => "0x"
  | _ => ""

variable {base : Nat} {c : Char}

/-! ### Digits -/

theorem toNat_digitChar (small : value < 16) :
    (Nat.digitChar value).toNat = if value < 10 then 48 + value else 87 + value := by
  interval_cases value <;> rfl

theorem toNat_toLower (c : Char) :
    c.toLower.toNat = if 65 ≤ c.toNat ∧ c.toNat ≤ 90 then c.toNat + 32 else c.toNat := by
  have upper : c.val ≥ 'A'.val ∧ c.val ≤ 'Z'.val ↔ 65 ≤ c.toNat ∧ c.toNat ≤ 90 := Iff.rfl
  unfold Char.toLower
  split
  · rename_i bounds
    rw [if_pos (upper.mp bounds)]
    have small : c.val.toNat ≤ 90 := (upper.mp bounds).2
    change (c.val + 32).toNat = c.val.toNat + 32
    rw [UInt32.toNat_add]
    exact Nat.mod_eq_of_lt (Nat.lt_of_le_of_lt (Nat.add_le_add_right small _) (by decide))
  · rename_i bounds
    rw [if_neg (upper.not.mp bounds)]

/-- A digit counts in either case. -/
theorem digitValue?_eq_some (small : base ≤ 16) :
    digitValue? base c = some value ↔ value < base ∧ c.toLower = Nat.digitChar value := by
  have le (a b : Char) : a ≤ b ↔ a.toNat ≤ b.toNat := Iff.rfl
  rw [digitValue?, hexValue?, filter_eq_some_iff, decide_eq_true_eq, and_comm]
  refine and_congr_right fun digit => ?_
  rw [← Char.toNat_inj, toNat_toLower, toNat_digitChar (digit.trans_le small)]
  simp only [le, Bool.and_eq_true, decide_eq_true_eq, Char.reduceToNat]
  split_ifs <;> simp only [Option.some.injEq, false_iff] <;> omega

theorem toNat_of_isBaseDigit (digit : isBaseDigit base c = true) :
    48 ≤ c.toNat ∧ c.toNat ≤ 102 := by
  have le (a b : Char) : a ≤ b ↔ a.toNat ≤ b.toNat := Iff.rfl
  obtain ⟨value, found⟩ := isSome_iff_exists.mp digit
  obtain ⟨found, _⟩ := filter_eq_some_iff.mp found
  simp only [hexValue?, le, Bool.and_eq_true, decide_eq_true_eq, Char.reduceToNat] at found
  split_ifs at found <;> omega

/-- Digits of either case spell the number whose digits they are. -/
theorem ofDigitValues_spelled (several : 1 < base) (small : base ≤ 16) {n}
    (spelled : digits.map Char.toLower = Nat.toDigits base n) :
    (∀ c ∈ digits, isBaseDigit base c = true) ∧
      ofDigitValues base (digits.filterMap (digitValue? base)) = n := by
  induction n using Nat.strong_induction_on generalizing digits with
  | h n ih =>
    by_cases one : n < base
    · rw [Nat.toDigits_of_lt_base one] at spelled
      obtain ⟨c, rfl, digit⟩ := map_eq_singleton_iff.mp spelled
      have value := (digitValue?_eq_some small).mpr ⟨one, digit⟩
      simp [isBaseDigit, value, ofDigitValues]
    · -- the last character spells the remainder, and those before it the quotient
      have le := Nat.le_of_not_lt one
      rw [Nat.toDigits_of_base_le several le] at spelled
      obtain ⟨front, last, rfl, front_spelled, last_spelled⟩ := map_eq_append_iff.mp spelled
      obtain ⟨c, rfl, digit⟩ := map_eq_singleton_iff.mp last_spelled
      have value := (digitValue?_eq_some small).mpr ⟨Nat.mod_lt n (by omega), digit⟩
      obtain ⟨inside, total⟩ := ih (n / base) (Nat.div_lt_self (by omega) several) front_spelled
      refine ⟨forall_mem_append.mpr ⟨inside, by simp [isBaseDigit, value]⟩, ?_⟩
      rw [filterMap_append, ofDigitValues, foldl_append, ← ofDigitValues, total]
      simpa [value] using Nat.div_add_mod' n base

/-! ### Texts around digits -/

theorem dropBaseLetters_baseMark (known : base ∈ [2, 8, 10, 16]) (text : List Char) :
    dropBaseLetters base ((baseMark base).toList ++ text) = text := by
  have no_letter (c : Char) : baseOfLetter? c ≠ some 10 := by
    unfold baseOfLetter?
    split_ifs <;> simp
  fin_cases known
  · rfl
  · rfl
  · change dropBaseLetters 10 text = text
    unfold dropBaseLetters
    split
    · simp [no_letter]
    · rfl
  · rfl

theorem trim_visible {front} (ne : front ≠ []) (visible : ∀ c ∈ front, Text.isBlank c = false)
    (rest : List Char) : Text.trim (front ++ rest) = front ++ Text.trimEnd rest := by
  have ended : Text.trimEnd (front ++ rest) = front ++ Text.trimEnd rest := by
    clear ne
    induction front with
    | nil => rfl
    | cons c front ih =>
      obtain ⟨first, others⟩ := forall_mem_cons.mp visible
      rw [cons_append, Text.trimEnd_cons first, ih others, cons_append]
  obtain ⟨c, front, rfl⟩ := exists_cons_of_ne_nil ne
  rw [Text.trim, Text.trimStart, Text.dropLeading, cons_append,
    dropWhile_cons_of_neg (by simp [visible c mem_cons_self]), ← cons_append, ended]

theorem head?_trimEnd (first : c ∈ (Text.trimEnd rest).head?) : c ∈ rest.head? := by
  have front : Text.trimEnd rest <+: rest := by
    rw [← reverse_suffix, Text.trimEnd, Text.dropTrailing, reverse_reverse]
    exact dropWhile_suffix _
  obtain ⟨after, rest_eq⟩ := front
  rw [← rest_eq, head?_append, first]
  rfl

theorem head?_baseMark (base : Nat) (inside : ∀ c ∈ digits, isBaseDigit base c = true)
    (ne : digits ≠ []) (rest : List Char) :
    ∃ c more, (baseMark base).toList ++ digits ++ rest = c :: more ∧ 48 ≤ c.toNat := by
  obtain ⟨c, digits, rfl⟩ := exists_cons_of_ne_nil ne
  have digit := (toNat_of_isBaseDigit (inside c mem_cons_self)).1
  unfold baseMark
  split
  · exact ⟨'0', _, rfl, le_rfl⟩
  · exact ⟨'0', _, rfl, le_rfl⟩
  · exact ⟨'0', _, rfl, le_rfl⟩
  · exact ⟨c, _, rfl, digit⟩

theorem visible_of_mem (inside : ∀ c ∈ digits, isBaseDigit base c = true) :
    ∀ c ∈ (if n < 0 then ['-'] else []) ++ ((baseMark base).toList ++ digits),
      Text.isBlank c = false := by
  have marks : ∀ c ∈ (baseMark base).toList, Text.isBlank c = false := by
    unfold baseMark
    split
    iterate 3
      · exact forall_mem_cons.mpr ⟨rfl, forall_mem_singleton.mpr rfl⟩
    · exact forall_mem_nil _
  simp only [forall_mem_append]
  refine ⟨?_, marks, fun c mem => ?_⟩
  · split
    · exact forall_mem_singleton.mpr rfl
    · exact forall_mem_nil _
  · have := toNat_of_isBaseDigit (inside c mem)
    exact isBlank_of_toNat (by omega) (by omega)

/-- An integer with its sign, the letters of its base and its digits is read as itself. -/
theorem readInteger_spelled (known : base ∈ [2, 8, 10, 16])
    (spelled : digits.map Char.toLower = Nat.toDigits base n.natAbs)
    (ends : ∀ c ∈ rest.head?, isBaseDigit base c = false) :
    readInteger base ((if n < 0 then ['-'] else []) ++
      ((baseMark base).toList ++ digits) ++ rest) = n := by
  have bounds : 1 < base ∧ base ≤ 16 := by fin_cases known <;> decide
  obtain ⟨inside, total⟩ := ofDigitValues_spelled bounds.1 bounds.2 spelled
  have ne : digits ≠ [] := by
    rintro rfl
    exact Nat.toDigits_ne_nil spelled.symm
  have taken := (span_append inside fun c first => ends c (head?_trimEnd first)).1
  obtain ⟨c, more, body_eq, digit⟩ := head?_baseMark base inside ne (Text.trimEnd rest)
  have differs (sign : Char) (low : sign.toNat < 48) : (c == sign) = false := by
    refine beq_false_of_ne ?_
    rintro rfl
    omega
  have magnitude : ofDigitValues base
      (((dropBaseLetters base (c :: more)).takeWhile (isBaseDigit base)).filterMap
        (digitValue? base)) = n.natAbs := by
    rw [← body_eq, append_assoc, dropBaseLetters_baseMark known, taken, total]
  rw [readInteger, trim_visible (by simp [ne]) (visible_of_mem inside), append_assoc, body_eq]
  by_cases negative : n < 0
  · simp only [negative, reduceIte, singleton_append, head?_cons, beq_self_eq_true,
      dropWhile_cons, Bool.or_true, differs '+' (by decide), differs '-' (by decide),
      Bool.or_self, Bool.false_eq_true, magnitude]
    omega
  · simp only [negative, reduceIte, nil_append, head?_cons, some_beq_some,
      dropWhile_cons, differs '+' (by decide), differs '-' (by decide), Bool.or_self,
      Bool.false_eq_true, magnitude]
    omega

/-- Every integer is read back from its sign, the letters of one of the four bases and its digits in
either case, whatever follows that is no digit of the base. -/
theorem str2nr_spelled {base : Nat} (known : base ∈ [2, 8, 10, 16]) (n : Int) {digits : String}
    (spelled : digits.toList.map Char.toLower = Nat.toDigits base n.natAbs) {rest : String}
    (ends : ∀ c ∈ rest.toList.head?, ∀ value < base, c.toLower ≠ Nat.digitChar value)
    (heap : Heap) :
    TextFunction.apply .str2nr
      [.str ((if n < 0 then "-" else "") ++ baseMark base ++ digits ++ rest), .integer base] heap =
      .ok (.integer n) heap := by
  have small : base ≤ 16 := by fin_cases known <;> decide
  have ended : ∀ c ∈ rest.toList.head?, isBaseDigit base c = false := by
    intro c first
    refine isSome_eq_false_iff.mpr (isNone_iff_eq_none.mpr ?_)
    refine eq_none_iff_forall_ne_some.mpr fun value found => ?_
    obtain ⟨digit, spells⟩ := (digitValue?_eq_some small).mp found
    exact ends c first value digit spells
  have characters : ((if n < 0 then "-" else "") ++ baseMark base ++ digits ++ rest).toList =
      (if n < 0 then ['-'] else []) ++ ((baseMark base).toList ++ digits.toList) ++ rest.toList := by
    split <;> simp
  have read : textToInteger ((if n < 0 then "-" else "") ++ baseMark base ++ digits ++ rest) base =
      .ok (.integer n) := by
    rw [textToInteger, if_pos (by fin_cases known <;> rfl), Int.toNat_natCast, characters,
      readInteger_spelled known spelled ended]
  exact congrArg (fun result => Mem.ofExcept result heap) read

/-- A number with digits of both cases, which a letter that is no digit ends. -/
theorem str2nr_spelled_sixteen :
    "bEEf".toList.map Char.toLower = Nat.toDigits 16 (-48879 : Int).natAbs ∧
      TextFunction.apply .str2nr [.str "-0xbEEfx1", .integer 16] {} =
        .ok (.integer (-48879)) {} := by
  have spelled : "bEEf".toList.map Char.toLower = Nat.toDigits 16 (-48879 : Int).natAbs := by decide
  have read := @str2nr_spelled 16 (by decide) (-48879) "bEEf" spelled "x1" (by rintro _ ⟨⟩; decide) {}
  have text : (if (-48879 : Int) < 0 then "-" else "") ++ baseMark 16 ++ "bEEf" ++ "x1" =
      "-0xbEEfx1" := by decide
  rw [text] at read
  exact ⟨spelled, read⟩

end Vimlet
