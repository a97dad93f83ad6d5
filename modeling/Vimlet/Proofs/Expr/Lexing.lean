import Mathlib.Data.List.Infix
import Mathlib.Data.List.TakeWhile
import Vimlet.Expr.Lexer
import Vimlet.Value.Printer

/-!
# Reading tokens one by one

Each token takes at least one character, so that all tokens of a text are read. A literal is read as
its value if what stands after it does not continue it.
-/

namespace Vimlet.Lexer

open List Text Option

variable {text rest content : List Char} {value : Value} {c : Char}
variable {following found : List Token} {member : Char → Bool} {first : Token} {fuel n : Nat}

/-! ### Tokens take characters -/

theorem doubleQuoted_length (read : doubleQuoted text = some (content, rest)) :
    rest.length < text.length := by
  fun_induction doubleQuoted text generalizing content with
  | case1 => cases read
  | case2 c text ih =>
    obtain ⟨⟨inner, left⟩, inner_read, ⟨⟩⟩ := map_eq_some_iff.mp read
    have := ih inner_read
    simp only [length_cons]
    omega
  | case3 text =>
    cases read
    exact Nat.lt_succ_self _
  | case4 c text _ _ ih =>
    obtain ⟨⟨inner, left⟩, inner_read, ⟨⟩⟩ := map_eq_some_iff.mp read
    exact (ih inner_read).trans (Nat.lt_succ_self _)

theorem singleQuoted_length (read : singleQuoted text = some (content, rest)) :
    rest.length < text.length := by
  fun_induction singleQuoted text generalizing content with
  | case1 => cases read
  | case2 text ih | case3 text ih =>
    obtain ⟨⟨inner, left⟩, inner_read, ⟨⟩⟩ := map_eq_some_iff.mp read
    have := ih inner_read
    simp only [length_cons]
    omega
  | case4 text =>
    cases read
    exact Nat.lt_succ_self _
  | case5 c text _ _ _ ih =>
    obtain ⟨⟨inner, left⟩, inner_read, ⟨⟩⟩ := map_eq_some_iff.mp read
    exact (ih inner_read).trans (Nat.lt_succ_self _)

theorem dropWhile_length_lt (taken : text.takeWhile member ≠ []) :
    (text.dropWhile member).length < text.length := by
  have parts := congrArg List.length (takeWhile_append_dropWhile (p := member) (l := text))
  rw [length_append] at parts
  have := length_pos_iff.mpr taken
  omega

theorem splitPower_length (text : List Char) : (splitPower text).2.length ≤ text.length := by
  have sign_length (text : List Char) : (splitSign text).2.length ≤ text.length := by
    unfold splitSign
    split <;> simp
  cases text with
  | nil => exact Nat.le_refl _
  | cons mark rest =>
    simp only [splitPower]
    split
    · have dropped := (dropWhile_suffix (l := (splitSign rest).2) isDecimal).length_le
      have := sign_length rest
      simp only [length_cons]
      omega
    · exact Nat.le_refl _

/-! Every form of a number has a numeric value and takes characters. -/

theorem basedNumber?_spec (read : basedNumber? text = some (value, rest)) :
    value.isNumeric = true ∧ rest.length < text.length := by
  unfold basedNumber? at read
  split at read
  · rename_i letter digits
    obtain ⟨base, _, digits_read⟩ := bind_eq_some_iff.mp read
    dsimp only at digits_read
    split at digits_read
    · cases digits_read
    · cases digits_read
      have dropped := (dropWhile_suffix (l := digits) (isBaseDigit base)).length_le
      simp only [length_cons]
      exact ⟨rfl, by omega⟩
  · cases read

theorem pointNumber?_spec (read : pointNumber? text = some (value, rest)) :
    value.isNumeric = true ∧ rest.length < text.length := by
  unfold pointNumber? at read
  split at read
  · rename_i fraction after_whole
    dsimp only at read
    split at read
    · cases read
    · cases read
      have whole := (dropWhile_suffix (l := text) isDecimal).length_le
      have dropped := (dropWhile_suffix (l := fraction) isDecimal).length_le
      have power := splitPower_length (fraction.dropWhile isDecimal)
      rw [after_whole, length_cons] at whole
      exact ⟨rfl, by omega⟩
  · cases read

theorem wholeNumber?_spec (read : wholeNumber? text = some (value, rest)) :
    value.isNumeric = true ∧ rest.length < text.length := by
  unfold wholeNumber? at read
  dsimp only at read
  split at read
  · cases read
  · rename_i some_digits
    cases read
    exact ⟨rfl, dropWhile_length_lt (by simpa using some_digits)⟩

theorem number?_spec (read : number? text = some (value, rest)) :
    value.isNumeric = true ∧ rest.length < text.length := by
  rw [number?, or_eq_some_iff, or_eq_some_iff] at read
  obtain based | ⟨_, point | ⟨_, whole⟩⟩ := read
  · exact basedNumber?_spec based
  · exact pointNumber?_spec point
  · exact wholeNumber?_spec whole

theorem operator?_length {symbol} (read : operator? text = some (symbol, rest)) :
    rest.length < text.length := by
  unfold operator? at read
  split at read
  · split at read
    · cases read
      simp only [length_cons]
      omega
    · obtain ⟨_, _, ⟨⟩⟩ := map_eq_some_iff.mp read
      exact Nat.lt_succ_self _
  · obtain ⟨_, _, ⟨⟩⟩ := map_eq_some_iff.mp read
    exact Nat.lt_succ_self _
  · cases read

/-- The token at the start of a text, and what is left after it. -/
inductive Reads : List Char → Token → List Char → Prop where
  | double {text content rest : List Char} (quoted : doubleQuoted text = some (content, rest)) :
      Reads ('"' :: text) (.val (.str (String.ofList content))) rest
  | single {text content rest : List Char} (quoted : singleQuoted text = some (content, rest)) :
      Reads ('\'' :: text) (.val (.str (String.ofList content))) rest
  | number {c : Char} {text rest} {value : Value}
      (unquoted : (c == '"' || c == '\'') = false) (digit : isDigit c = true)
      (read : number? (c :: text) = some (value, rest)) : Reads (c :: text) (.val value) rest
  | name {c : Char} (unquoted : (c == '"' || c == '\'') = false)
      (no_digit : Text.isDigit c = false) (starts : startsName c = true) (text : List Char) :
      Reads (c :: text) (.var (String.ofList (c :: text.takeWhile continuesName)))
        (text.dropWhile continuesName)
  | operator {c text rest symbol}
      (unquoted : (c == '"' || c == '\'') = false) (no_digit : isDigit c = false)
      (no_name : startsName c = false)
      (read : operator? (c :: text) = some (symbol, rest)) : Reads (c :: text) (.op symbol) rest

theorem token_eq_ok : token text = .ok (first, rest) ↔ Reads text first rest := by
  constructor
  · intro read
    cases text with
    | nil => cases read
    | cons c text =>
      unfold token at read
      dsimp only at read
      split at read
      · rename_i quote
        split at read
        · rename_i quoted
          cases read
          split at quoted
          · rename_i double
            rw [eq_of_beq double]
            exact .double quoted
          · rename_i not_double
            have single : c = '\'' := by simpa [not_double] using quote
            rw [single]
            exact .single quoted
        · cases read
      · rename_i unquoted
        rw [Bool.not_eq_true] at unquoted
        split at read
        · rename_i digit
          split at read <;> cases read
          exact .number unquoted digit (by assumption)
        · rename_i no_digit
          rw [Bool.not_eq_true] at no_digit
          split at read
          · cases read
            exact .name unquoted no_digit (by assumption) text
          · rename_i no_name
            rw [Bool.not_eq_true] at no_name
            split at read <;> cases read
            exact .operator unquoted no_digit no_name (by assumption)
  · intro reads
    cases reads with
    | double quoted => simp [token, quoted]
    | single quoted => simp [token, quoted]
    | number unquoted digit read => simp [token, unquoted, digit, read]
    | name unquoted no_digit starts => simp [token, unquoted, no_digit, starts]
    | operator unquoted no_digit no_name read =>
      simp [token, unquoted, no_digit, no_name, read]

theorem token_length (read : token text = .ok (first, rest)) : rest.length < text.length := by
  cases token_eq_ok.mp read with
  | double quoted => exact (doubleQuoted_length quoted).trans (Nat.lt_succ_self _)
  | single quoted => exact (singleQuoted_length quoted).trans (Nat.lt_succ_self _)
  | number _ _ read => exact (number?_spec read).2
  | name => exact Nat.lt_succ_of_le (dropWhile_suffix continuesName).length_le
  | operator _ _ _ read => exact operator?_length read

/-! ### All tokens of a text -/

theorem tokensWithin_succ (fuel : Nat) (text : List Char) :
    tokensWithin (fuel + 1) text =
      match text.dropWhile isBlank with
      | [] => .ok []
      | text => do
        let (first, rest) ← token text
        return first :: (← tokensWithin fuel rest) := rfl

/-- More steps than there are characters read no more tokens. -/
theorem tokensWithin_add_one (enough : text.length ≤ fuel) :
    tokensWithin (fuel + 1) text = tokensWithin fuel text := by
  induction fuel generalizing text with
  | zero =>
    obtain rfl := length_eq_zero_iff.mp (Nat.le_zero.mp enough)
    rfl
  | succ fuel ih =>
    rw [tokensWithin_succ, tokensWithin_succ]
    have shorter := (dropWhile_suffix (l := text) isBlank).length_le
    cases left : text.dropWhile isBlank with
    | nil => rfl
    | cons c rest =>
      cases read : token (c :: rest) with
      | error stop => simp only [bind, Except.bind, read]
      | ok result =>
        have taken := token_length read
        rw [left] at shorter
        have same : tokensWithin (fuel + 1) result.2 = tokensWithin fuel result.2 :=
          ih (by omega)
        simp only [bind, Except.bind, read, same]

theorem tokensWithin_eq_tokens (enough : text.length ≤ fuel) :
    tokensWithin fuel text = tokens text := by
  induction enough with
  | refl => rfl
  | step enough ih => rw [tokensWithin_add_one enough, ih]

theorem tokens_nil : tokens [] = .ok [] := rfl

theorem tokens_blank (blank : isBlank c = true) (rest : List Char) :
    tokens (c :: rest) = tokens rest := by
  rw [← tokensWithin_eq_tokens (Nat.le_succ rest.length), tokens, length_cons,
    tokensWithin_succ, tokensWithin_succ, dropWhile_cons_of_pos blank]

/-- The tokens of a text are the first one and those of what it leaves. -/
theorem tokens_eq_bind (ink : isBlank c = false) (text : List Char) :
    tokens (c :: text) = do
      let (first, rest) ← token (c :: text)
      return first :: (← tokens rest) := by
  rw [tokens, length_cons, tokensWithin_succ, dropWhile_cons_of_neg (by simp [ink])]
  cases read : token (c :: text) with
  | error stop => simp only [bind, Except.bind, read]
  | ok result =>
    have taken : result.2.length < text.length + 1 := token_length read
    simp only [bind, Except.bind, read, tokensWithin_eq_tokens (Nat.le_of_lt_succ taken)]

theorem tokens_cons (ink : isBlank c = false) (read : token (c :: text) = .ok (first, rest))
    (others : tokens rest = .ok following) : tokens (c :: text) = .ok (first :: following) := by
  simp only [tokens_eq_bind ink, read, others, bind, Except.bind]
  rfl

/-- The tokens of a text, which may have blanks before each of them and at its end. -/
inductive Scans : List Char → List Token → Prop where
  | nil : Scans [] []
  | blank {c : Char} {text : List Char} {found : List Token} (blank : isBlank c = true)
      (scans : Scans text found) : Scans (c :: text) found
  | token {c : Char} {text rest} {first : Token} {found : List Token}
      (ink : isBlank c = false) (reads : Reads (c :: text) first rest)
      (scans : Scans rest found) : Scans (c :: text) (first :: found)

theorem tokens_eq_ok : tokens text = .ok found ↔ Scans text found := by
  constructor
  · intro read
    induction length : text.length using Nat.strong_induction_on generalizing text found with
    | h length ih =>
      subst length
      cases text with
      | nil =>
        cases read
        exact .nil
      | cons c text =>
        cases blank : isBlank c with
        | true =>
          rw [tokens_blank blank] at read
          exact .blank blank (ih _ (Nat.lt_succ_self _) read rfl)
        | false =>
          rw [tokens_eq_bind blank] at read
          rcases taken : token (c :: text) with _ | ⟨first, rest⟩
          · rw [taken] at read
            cases read
          · rcases others : tokens rest with _ | following
            · simp only [taken, others, bind, Except.bind] at read
              cases read
            · simp only [taken, others, bind, Except.bind] at read
              cases read
              exact .token blank (token_eq_ok.mp taken) (ih _ (token_length taken) others rfl)
  · intro scans
    induction scans with
    | nil => rfl
    | blank blank _ ih => rw [tokens_blank blank, ih]
    | token ink reads _ ih => exact tokens_cons ink (token_eq_ok.mpr reads) ih

/-- Every token of a text is read at some place of it. -/
theorem Scans.exists_reads (scans : Scans text found) {token} (mem : token ∈ found) :
    ∃ start rest, Reads start token rest := by
  induction scans with
  | nil => cases mem
  | blank _ _ ih => exact ih mem
  | token _ reads _ ih =>
    cases mem with
    | head => exact ⟨_, _, reads⟩
    | tail _ mem => exact ih mem

/-! ### Strings in single quotes -/

/-- What stands between the quotes of a literal. -/
def doubled (text : List Char) : List Char :=
  text.flatMap fun c => if c == '\'' then ['\'', '\''] else [c]

theorem toList_quoteLiteral (text : String) :
    (quoteLiteral text).toList = '\'' :: (doubled text.toList ++ ['\'']) := by
  simp [quoteLiteral, doubled]

theorem doubled_quote (text : List Char) :
    doubled ('\'' :: text) = '\'' :: '\'' :: doubled text := rfl

theorem doubled_plain (plain : c ≠ '\'') (text : List Char) :
    doubled (c :: text) = c :: doubled text := by
  simp [doubled, plain]

/-- Between the quotes a literal goes on with the next character of its text, or it ends. -/
theorem head?_doubled (text rest : List Char) :
    (doubled text ++ '\'' :: rest).head? = some (text.head?.getD '\'') := by
  cases text with
  | nil => rfl
  | cons c text =>
    by_cases quote : c = '\''
    · rw [quote, doubled_quote]
      rfl
    · rw [doubled_plain quote]
      rfl

/-- No backslash stands before a single quote or at the end. -/
def Quotable (text : List Char) : Prop := ¬['\\', '\''] <:+: text ∧ ¬['\\'] <:+ text

instance (text : List Char) : Decidable (Quotable text) :=
  inferInstanceAs (Decidable (¬['\\', '\''] <:+: text ∧ ¬['\\'] <:+ text))

theorem quotable_nil : Quotable [] := by simp [Quotable]

theorem quotable_cons :
    Quotable (c :: text) ↔ (c = '\\' → text.head?.getD '\'' ≠ '\'') ∧ Quotable text := by
  rw [Quotable, Quotable, infix_cons_iff, suffix_cons_iff]
  cases text with
  | nil => grind
  | cons d text => grind

theorem singleQuoted_end (ends : rest.head? ≠ some '\'') :
    singleQuoted ('\'' :: rest) = some ([], rest) := by
  cases rest with
  | nil => rfl
  | cons d rest => rw [singleQuoted]; simp_all

theorem singleQuoted_plain (plain : c ≠ '\'') (unescaped : c = '\\' → rest.head? ≠ some '\'') :
    singleQuoted (c :: rest) = (singleQuoted rest).map fun read => (c :: read.1, read.2) := by
  rw [singleQuoted]
  · rintro more rfl rfl
    exact unescaped rfl rfl
  · rintro more rfl
    exact absurd rfl plain
  · exact plain

theorem singleQuoted_doubled (quotable : Quotable text) (ends : rest.head? ≠ some '\'') :
    singleQuoted (doubled text ++ '\'' :: rest) = some (text, rest) := by
  induction text with
  | nil => exact singleQuoted_end ends
  | cons c text ih =>
    obtain ⟨unescaped, quotable⟩ := quotable_cons.mp quotable
    by_cases quote : c = '\''
    · rw [quote, doubled_quote, cons_append, cons_append, singleQuoted, ih quotable]
      rfl
    · rw [doubled_plain quote, cons_append, singleQuoted_plain quote, ih quotable]
      · rfl
      · rw [head?_doubled]
        simpa using unescaped

/-- Only a text without escapes is read as it was quoted. -/
theorem quotable_of_singleQuoted {left}
    (read : singleQuoted (doubled text ++ '\'' :: rest) = some (text, left)) : Quotable text := by
  induction text with
  | nil => exact quotable_nil
  | cons c text ih =>
    by_cases quote : c = '\''
    · rw [quote, doubled_quote, cons_append, cons_append, singleQuoted] at read
      obtain ⟨⟨content, after⟩, inner, ⟨⟩⟩ := map_eq_some_iff.mp read
      exact quotable_cons.mpr ⟨by simp [quote], ih inner⟩
    · rw [doubled_plain quote, cons_append] at read
      have unescaped : c = '\\' → text.head?.getD '\'' ≠ '\'' := by
        -- an escaped quote would be read as a quote, where the text has a backslash
        rintro rfl escaped
        have head := head?_doubled text rest
        rw [escaped] at head
        obtain ⟨more, more_eq⟩ := head?_eq_some_iff.mp head
        rw [more_eq, singleQuoted] at read
        obtain ⟨⟨content, after⟩, _, same⟩ := map_eq_some_iff.mp read
        simp at same
      rw [singleQuoted_plain quote (by rw [head?_doubled]; simpa using unescaped)] at read
      obtain ⟨⟨content, after⟩, inner, ⟨⟩⟩ := map_eq_some_iff.mp read
      exact quotable_cons.mpr ⟨unescaped, ih inner⟩

theorem token_single (text : List Char) :
    token ('\'' :: text) =
      match singleQuoted text with
      | some (content, rest) => .ok (.val (.str (String.ofList content)), rest)
      | none => .error (.fault (.unterminatedString (String.ofList ('\'' :: text)))) := rfl

theorem tokens_quoted (quotable : Quotable text) (ends : rest.head? ≠ some '\'')
    (others : tokens rest = .ok following) :
    tokens ('\'' :: (doubled text ++ '\'' :: rest)) =
      .ok (.val (.str (String.ofList text)) :: following) := by
  refine tokens_cons rfl ?_ others
  rw [token_single, singleQuoted_doubled quotable ends]

/-! ### Literals before a delimiter -/

/-- The text ends, or a comma or a closing bracket follows. -/
def Delimited (rest : List Char) : Prop := ∀ c ∈ rest.head?, c = ',' ∨ c = ']' ∨ c = '\x7d'

theorem Delimited.outside (delimited : Delimited rest) (member : Char → Bool)
    (comma : member ',' = false) (bracket : member ']' = false) (brace : member '\x7d' = false) :
    ∀ c ∈ rest.head?, member c = false := by
  intro c mem
  obtain rfl | rfl | rfl := delimited c mem <;> assumption

/-- Characters of a class are taken up to the first one outside of it. -/
theorem span_append (inside : ∀ c ∈ text, member c = true)
    (outside : ∀ c ∈ rest.head?, member c = false) :
    (text ++ rest).takeWhile member = text ∧ (text ++ rest).dropWhile member = rest := by
  rw [takeWhile_append_of_pos inside, dropWhile_append_of_pos inside]
  cases rest with
  | nil => simp
  | cons c rest =>
    have stops : ¬member c = true := by simp [outside c rfl]
    rw [takeWhile_cons_of_neg stops, dropWhile_cons_of_neg stops, append_nil]
    exact ⟨rfl, rfl⟩

theorem isBlank_of_toNat (low : 33 ≤ c.toNat) (high : c.toNat ≤ 126) : isBlank c = false := by
  have outside : ∀ range ∈ blankRanges, range.2 < 33 ∨ 126 < range.1 := by decide
  refine any_eq_false.mpr fun range mem => ?_
  have := outside range mem
  simp only [Bool.and_eq_true, decide_eq_true_eq]
  omega

section Digits

variable {c : Char} (digit : c.isDigit = true)
include digit

theorem differs_of_isDigit (other : Char) (different : other.isDigit = false) :
    (c == other) = false := by
  refine beq_eq_false_iff_ne.mpr fun same => ?_
  rw [← same, digit] at different
  cases different

theorem toNat_of_isDigit : 48 ≤ c.toNat ∧ c.toNat ≤ 57 := Char.isDigit_iff_toNat.mp digit

theorem toNat_lt_of_isDigit : c.toNat < 0x80 := by
  have := toNat_of_isDigit digit
  omega

theorem isBlank_of_isDigit : isBlank c = false := by
  have := toNat_of_isDigit digit
  exact isBlank_of_toNat (by omega) (by omega)

theorem decimalValue?_of_isDigit : decimalValue? c = some (c.toNat - '0'.toNat) := by
  rw [decimalValue?, if_pos (toNat_lt_of_isDigit digit), if_pos digit]

theorem isDecimal_of_isDigit : isDecimal c = true := by
  rw [isDecimal, decimalValue?_of_isDigit digit]
  rfl

theorem baseOfLetter?_of_isDigit : baseOfLetter? c = none := by
  have differs := differs_of_isDigit digit
  rw [baseOfLetter?, differs 'x' rfl, differs 'X' rfl, differs 'o' rfl, differs 'O' rfl,
    differs 'b' rfl, differs 'B' rfl]
  rfl

end Digits

theorem isDigit_of_mem {c} (mem : c ∈ Nat.toDigits 10 n) : c.isDigit = true :=
  Nat.isDigit_of_mem_toDigits (by decide) (by decide) mem

theorem ofDecimalDigits_toDigits (n : Nat) : ofDecimalDigits (Nat.toDigits 10 n) = n := by
  have values : (Nat.toDigits 10 n).map (fun c => (decimalValue? c).getD 0) =
      (Nat.toDigits 10 n).map fun c => c.toNat - '0'.toNat :=
    map_congr_left fun c mem => by rw [decimalValue?_of_isDigit (isDigit_of_mem mem)]; rfl
  calc ofDecimalDigits (Nat.toDigits 10 n)
      = (Nat.toDigits 10 n).foldl (fun total c => 10 * total + (c.toNat - '0'.toNat)) 0 := by
        rw [ofDecimalDigits, values, ofDigitValues, foldl_map]
        simp only [Nat.mul_comm]
    _ = Nat.ofDigitChars 10 (Nat.toDigits 10 n) 0 := Nat.ofDigitChars_eq_foldl.symm
    _ = n := Nat.ofDigitChars_ten_toDigits

section Delimiters

variable {rest : List Char} (delimited : Delimited rest)
include delimited

theorem basedNumber?_toDigits (n : Nat) : basedNumber? (Nat.toDigits 10 n ++ rest) = none := by
  have no_base (digits : List Char) (all_digits : ∀ c ∈ digits, c.isDigit = true) :
      ∀ letter ∈ (digits ++ rest).head?, baseOfLetter? letter = none := by
    intro letter mem
    cases digits with
    | nil => obtain rfl | rfl | rfl := delimited letter mem <;> rfl
    | cons c digits =>
      cases mem
      exact baseOfLetter?_of_isDigit (all_digits _ mem_cons_self)
  unfold basedNumber?
  split
  · rename_i letter more split_eq
    cases digits_eq : Nat.toDigits 10 n with
    | nil => exact absurd digits_eq Nat.toDigits_ne_nil
    | cons c digits =>
      rw [digits_eq, cons_append] at split_eq
      have all_digits : ∀ d ∈ digits, d.isDigit = true := fun d mem =>
        isDigit_of_mem (digits_eq ▸ mem_cons_of_mem c mem)
      have none_there := no_base digits all_digits letter (by simp [(List.cons.inj split_eq).2])
      rw [none_there]
      rfl
  · rfl

theorem number?_toDigits (n : Nat) :
    number? (Nat.toDigits 10 n ++ rest) = some (.integer n, rest) := by
  obtain ⟨digits, after⟩ := span_append
    (fun c (mem : c ∈ Nat.toDigits 10 n) => isDecimal_of_isDigit (isDigit_of_mem mem))
    (delimited.outside isDecimal rfl rfl rfl)
  have no_point : pointNumber? (Nat.toDigits 10 n ++ rest) = none := by
    simp only [pointNumber?, after]
    split
    · rename_i more
      have := delimited '.' rfl
      simp at this
    · rfl
  have whole : wholeNumber? (Nat.toDigits 10 n ++ rest) = some (.integer n, rest) := by
    simp only [wholeNumber?, digits, after, ofDecimalDigits_toDigits]
    rw [if_neg (by simp [Nat.toDigits_ne_nil])]
  rw [number?, basedNumber?_toDigits delimited, no_point, whole]
  rfl

theorem tokens_toDigits (others : tokens rest = .ok following) :
    tokens (Nat.toDigits 10 n ++ rest) = .ok (.val (.integer n) :: following) := by
  have read := number?_toDigits delimited n
  cases digits_eq : Nat.toDigits 10 n with
  | nil => exact absurd digits_eq Nat.toDigits_ne_nil
  | cons c digits =>
    have digit : c.isDigit = true := isDigit_of_mem (digits_eq ▸ mem_cons_self)
    have differs := differs_of_isDigit digit
    rw [digits_eq, cons_append] at read
    refine tokens_cons (isBlank_of_isDigit digit) ?_ others
    · rw [append_eq, token, differs '"' rfl, differs '\'' rfl, Text.isDigit,
        if_pos (toNat_lt_of_isDigit digit), digit, read]
      rfl

theorem tokens_name {c name} (ink : Text.isBlank c = false)
    (unquoted : (c == '"' || c == '\'') = false) (no_digit : isDigit c = false)
    (starts : startsName c = true) (continues : ∀ d ∈ name, continuesName d = true)
    (others : tokens rest = .ok following) :
    tokens (c :: (name ++ rest)) = .ok (.var (String.ofList (c :: name)) :: following) := by
  obtain ⟨taken, dropped⟩ := span_append continues
    (delimited.outside continuesName rfl rfl rfl)
  refine tokens_cons ink ?_ others
  simp only [token, unquoted, no_digit, starts, taken, dropped]
  rfl

end Delimiters

def marks : List (Char × Op) :=
  [('[', .leftBracket), (']', .rightBracket), ('\x7b', .leftBrace), ('\x7d', .rightBrace),
   (',', .comma), (':', .colon), ('-', .minus)]

theorem tokens_mark {c} (symbol : Op) (mark : (c, symbol) ∈ marks) {rest}
    (others : tokens rest = .ok following) :
    tokens (c :: rest) = .ok (.op symbol :: following) := by
  have read : ∀ entry ∈ marks,
      isBlank entry.1 = false ∧ token (entry.1 :: rest) = .ok (.op entry.2, rest) := by
    simp only [marks, forall_mem_cons]
    cases rest <;> exact ⟨⟨rfl, rfl⟩, ⟨rfl, rfl⟩, ⟨rfl, rfl⟩, ⟨rfl, rfl⟩, ⟨rfl, rfl⟩, ⟨rfl, rfl⟩,
      ⟨rfl, rfl⟩, forall_mem_nil _⟩
  exact tokens_cons (read _ mark).1 (read _ mark).2 others

end Vimlet.Lexer

namespace Vimlet

open Lexer

/-- A quoted text is read as itself exactly if no backslash in it stands before a single quote or at
the end. -/
theorem lex_quoteLiteral_eq_iff (text : String) :
    lex (quoteLiteral text) = .ok [.val (.str text)] ↔ Quotable text.toList := by
  rw [lex, toList_quoteLiteral]
  constructor
  · intro read
    rw [tokens_eq_bind rfl, token_single] at read
    cases quoted : singleQuoted (doubled text.toList ++ ['\'']) with
    | none =>
      rw [quoted] at read
      cases read
    | some result =>
      obtain ⟨content, rest⟩ := result
      simp only [quoted, bind, Except.bind] at read
      split at read
      · cases read
      · obtain ⟨content_eq, _⟩ : String.ofList content = text ∧ _ := by
          simpa [pure, Except.pure] using read
        rw [← content_eq, String.toList_ofList] at quoted ⊢
        exact quotable_of_singleQuoted quoted
  · intro quotable
    have read := tokens_quoted quotable (by simp) tokens_nil
    rwa [String.ofList_toList] at read

end Vimlet
