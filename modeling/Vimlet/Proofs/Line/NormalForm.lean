import Vimlet.Proofs.Expr.Lexing
import Vimlet.Proofs.Line.Joining

/-!
# The text of a statement

The text of a statement is a normal form of what was read: it is read as the same statement, unless
a continuation came about when continuations were joined.
-/

namespace Vimlet

open List Text

variable {text rest part front : List Char} {c : Char} {range : LineRange} {member : Char → Bool}
  {bound : Option Nat} {number : Nat}

/-! ### Continuations -/

/-- Somewhere in a text a backslash stands before a line end, with only spaces and tabs in between.
-/
def Continued (text : List Char) : Prop :=
  ∃ before blanks after, (∀ c ∈ blanks, isSpaceOrTab c = true) ∧
    text = before ++ '\\' :: (blanks ++ '\n' :: after)

theorem Continued.of_part (inside : part <:+: text) (continued : Continued part) :
    Continued text := by
  obtain ⟨front, back, rfl⟩ := inside
  obtain ⟨before, blanks, after, blank, rfl⟩ := continued
  exact ⟨front ++ before, blanks, after ++ back, blank, by simp⟩

theorem Continued.of_head (lineEnd : (text.dropWhile isSpaceOrTab).head? = some '\n') :
    Continued ('\\' :: text) := by
  obtain ⟨after, dropped⟩ := head?_eq_some_iff.mp lineEnd
  refine ⟨[], text.takeWhile isSpaceOrTab, after, fun c => mem_takeWhile_imp, ?_⟩
  rw [← dropped, takeWhile_append_dropWhile]
  rfl

namespace Line

theorem continuation?_eq_none (free : (text.dropWhile isSpaceOrTab).head? ≠ some '\n') :
    continuation? text = none := by
  unfold continuation?
  split
  · rename_i after dropped
    rw [dropped] at free
    exact absurd rfl free
  · rfl

/-- Text in which no continuation starts stays as it is, whatever follows. -/
theorem joinContinued_append {back}
    (free : ∀ before after, front = before ++ '\\' :: after →
      ((after ++ back).dropWhile isSpaceOrTab).head? ≠ some '\n') :
    joinContinued (front ++ back) = front ++ joinContinued back := by
  induction front with
  | nil => rfl
  | cons c front ih =>
    have rest_joined := ih fun before after split => free (c :: before) after (by rw [split]; rfl)
    have no_continuation :
        (if c == '\\' then continuation? (front ++ back) else none) = none := by
      split
      · rename_i backslash
        obtain rfl := eq_of_beq backslash
        exact continuation?_eq_none (free [] front rfl)
      · rfl
    rw [cons_append, joinContinued, joinFrom, no_continuation]
    exact congrArg (c :: ·) rest_joined

theorem joinContinued_append_of_plain (plain : '\\' ∉ front) (back : List Char) :
    joinContinued (front ++ back) = front ++ joinContinued back := by
  refine joinContinued_append fun before after split => absurd ?_ plain
  simp [split]

/-- A character that is no blank ends a text in which no continuation starts. -/
theorem joinContinued_append_cons (uncontinued : ¬Continued front)
    (visible : isSpaceOrTab c = false) (no_line_end : c ≠ '\n') (back : List Char) :
    joinContinued (front ++ c :: back) = front ++ joinContinued (c :: back) := by
  refine joinContinued_append fun before after split lineEnd => uncontinued ?_
  have starts : (after.dropWhile isSpaceOrTab).head? = some '\n' := by
    rw [dropWhile_append] at lineEnd
    split at lineEnd
    · rw [dropWhile_cons_of_neg (by simp [visible])] at lineEnd
      exact absurd (Option.some.inj lineEnd) no_line_end
    · rename_i more
      rwa [head?_append_of_ne_nil _ (by simpa using more)] at lineEnd
  refine .of_part ?_ (.of_head starts)
  exact ⟨before, [], by rw [split, append_nil]⟩

theorem joinContinued_eq_self (uncontinued : ¬Continued text) : joinContinued text = text := by
  calc joinContinued text
      = joinContinued (text ++ []) := by rw [append_nil]
    _ = text ++ [] := by
        refine joinContinued_append fun before after split lineEnd => uncontinued ?_
        rw [append_nil] at lineEnd
        exact .of_part ⟨before, [], by rw [split, append_nil]⟩ (.of_head lineEnd)
    _ = text := append_nil text

end Line

/-! ### Starts and ends of texts -/

theorem head_dropWhile (head : c ∈ (text.dropWhile member).head?) : member c = false := by
  have stops := head?_dropWhile_not member text
  rwa [Option.mem_def.mp head] at stops

theorem dropWhile_eq_self (first : ∀ c ∈ text.head?, member c = false) :
    text.dropWhile member = text := by
  cases text with
  | nil => rfl
  | cons c rest => exact dropWhile_cons_of_neg (by simp [first c rfl])

theorem Text.isBlank_of_isAlphanumeric (word : isAlphanumeric c = true) : isBlank c = false := by
  by_cases low : c.toNat < 0x80
  · have ascii : ∀ code < 0x80,
        isAlphanumeric (Char.ofNat code) = true → isBlank (Char.ofNat code) = false := by
      decide +kernel
    have visible := ascii c.toNat low
    rw [Char.ofNat_toNat] at visible
    exact visible word
  · have apart : ∀ range ∈ letterRanges ++ numeralRanges, ∀ blank ∈ blankRanges,
        range.2 < blank.1 ∨ blank.2 < range.1 := by decide +kernel
    rw [isAlphanumeric, isLetter, isNumeral, if_neg low, if_neg low] at word
    obtain ⟨range, range_mem, starts, ends⟩ : ∃ range ∈ letterRanges ++ numeralRanges,
        range.1 ≤ c.toNat ∧ c.toNat ≤ range.2 := by
      simpa [inRanges, any_eq_true, or_and_right, exists_or] using word
    refine any_eq_false.mpr fun blank blank_mem inside => ?_
    simp only [Bool.and_eq_true, decide_eq_true_eq] at inside
    have := apart range range_mem blank blank_mem
    omega

theorem isSpaceOrTab_of_visible (visible : Text.isBlank c = false) :
    isSpaceOrTab c = false := by
  cases blank : isSpaceOrTab c with
  | false => rfl
  | true =>
    rw [Scan.isBlank_of_isSpaceOrTab blank] at visible
    cases visible

/-- A command word or a bang starts a text. -/
def StartsCommand (text : List Char) : Prop :=
  ∃ c ∈ text.head?, Text.isAlphanumeric c = true ∨ c = '!'

namespace StartsCommand

variable (starts : StartsCommand text)
include starts

theorem ne_nil : text ≠ [] := by
  rintro rfl
  obtain ⟨c, ⟨⟩, _⟩ := starts

/-- A character that is no part of a command word does not start a command. -/
theorem head_ne {other} (head : c ∈ text.head?) (outside : Text.isAlphanumeric other = false)
    (no_bang : other ≠ '!') : c ≠ other := by
  obtain ⟨first, is_first, word | rfl⟩ := starts
  · obtain rfl := Option.mem_unique head is_first
    exact fun same => by simp [← same, word] at outside
  · obtain rfl := Option.mem_unique head is_first
    exact no_bang.symm

theorem head_visible (head : c ∈ text.head?) : Text.isBlank c = false := by
  obtain ⟨first, is_first, word | rfl⟩ := starts
  · obtain rfl := Option.mem_unique head is_first
    exact isBlank_of_isAlphanumeric word
  · obtain rfl := Option.mem_unique head is_first
    decide

theorem dropWhile_isSpaceOrTab : text.dropWhile isSpaceOrTab = text :=
  dropWhile_eq_self fun _ head => isSpaceOrTab_of_visible (starts.head_visible head)

end StartsCommand

/-! ### Ranges -/

namespace LineRange

/-- The digits of a bound, if there is one. -/
def boundDigits (bound : Option Nat) : List Char := bound.elim [] (Nat.toDigits 10)

theorem isDecimal_of_mem_boundDigits (mem : c ∈ boundDigits bound) : isDecimal c = true := by
  cases bound with
  | none => cases mem
  | some n => exact Lexer.isDecimal_of_isDigit (Lexer.isDigit_of_mem mem)

theorem number?_boundDigits (bound : Option Nat) : number? (boundDigits bound) = bound := by
  cases bound with
  | none => rfl
  | some n =>
    have digits : (Nat.toDigits 10 n).isEmpty = false := by simp [Nat.toDigits_ne_nil]
    rw [boundDigits, Option.elim_some, number?, digits, Lexer.ofDecimalDigits_toDigits]
    rfl

section Numbers

variable (starts : StartsCommand rest) (ends : ∀ c ∈ rest.head?, isDecimal c = false)
include starts ends

theorem splitNumbers_one (bound : Option Nat) :
    splitNumbers (boundDigits bound ++ rest) = (bound.elim current line, rest) := by
  obtain ⟨digits, after⟩ :=
    Lexer.span_append (fun c (mem : c ∈ boundDigits bound) => isDecimal_of_mem_boundDigits mem) ends
  simp only [splitNumbers, digits, after, number?_boundDigits, starts.dropWhile_isSpaceOrTab]
  split
  · exact absurd rfl (starts.head_ne rfl (by decide : Text.isAlphanumeric ',' = false) (by decide))
  · cases bound <;> rfl

theorem splitNumbers_two (start stop : Option Nat) :
    splitNumbers (boundDigits start ++ ',' :: (boundDigits stop ++ rest)) =
      (ofBounds start stop, rest) := by
  have comma : ∀ c ∈ (',' :: (boundDigits stop ++ rest)).head?, isDecimal c = false := by
    rintro _ ⟨⟩
    decide
  obtain ⟨digits, after⟩ :=
    Lexer.span_append (fun c (mem : c ∈ boundDigits start) => isDecimal_of_mem_boundDigits mem) comma
  obtain ⟨more_digits, more_after⟩ :=
    Lexer.span_append (fun c (mem : c ∈ boundDigits stop) => isDecimal_of_mem_boundDigits mem) ends
  have no_blanks : (boundDigits stop ++ rest).dropWhile isSpaceOrTab =
      boundDigits stop ++ rest := by
    cases stop with
    | none => exact starts.dropWhile_isSpaceOrTab
    | some n =>
      refine dropWhile_eq_self fun c head => ?_
      rw [boundDigits, Option.elim_some, head?_append_of_ne_nil _ Nat.toDigits_ne_nil] at head
      have digit := Lexer.isDigit_of_mem (mem_of_mem_head? head)
      exact isSpaceOrTab_of_visible (Lexer.isBlank_of_isDigit digit)
  have before_comma : (',' :: (boundDigits stop ++ rest)).dropWhile isSpaceOrTab =
      ',' :: (boundDigits stop ++ rest) := rfl
  simp only [splitNumbers, digits, after, number?_boundDigits, before_comma, no_blanks, more_digits,
    more_after]

end Numbers

variable {chars : List Char}

theorem text_ofBounds (start stop : Option Nat) :
    ofBounds start stop = whole ∨
      (ofBounds start stop).text.toList = boundDigits start ++ ',' :: boundDigits stop := by
  cases start <;> cases stop <;> simp [ofBounds, text, boundDigits]

/-- What is read as numbers is one bound or two, and no digit follows. -/
theorem splitNumbers_cases (found : splitNumbers text = (range, rest)) :
    (∀ c ∈ rest.head?, isDecimal c = false) ∧
      ((∃ bound : Option Nat, range = bound.elim current line) ∨
        ∃ start stop, range = ofBounds start stop) := by
  unfold splitNumbers at found
  dsimp only at found
  split at found
  · obtain ⟨rfl, rfl⟩ := Prod.mk.inj found
    exact ⟨fun _ => head_dropWhile, .inr ⟨_, _, rfl⟩⟩
  · split at found
    · rename_i n _
      obtain ⟨rfl, rfl⟩ := Prod.mk.inj found
      exact ⟨fun _ => head_dropWhile, .inl ⟨some n, rfl⟩⟩
    · obtain ⟨rfl, rfl⟩ := Prod.mk.inj found
      exact ⟨fun _ => head_dropWhile, .inl ⟨none, rfl⟩⟩

/-- A text that starts with a bound, or without one, is read as numbers. -/
theorem split_boundDigits (head : ∀ c ∈ rest.head?, c ≠ '/' ∧ c ≠ '%') :
    split (boundDigits bound ++ rest) = splitNumbers (boundDigits bound ++ rest) := by
  have head_all : ∀ c ∈ (boundDigits bound ++ rest).head?, c ≠ '/' ∧ c ≠ '%' := by
    intro c first
    rw [head?_append, Option.mem_def, Option.or_eq_some_iff] at first
    obtain digit | ⟨_, first⟩ := first
    · have decimal := isDecimal_of_mem_boundDigits (mem_of_mem_head? digit)
      constructor <;> rintro rfl <;> revert decimal <;> decide
    · exact head c first
  unfold split
  split
  · rename_i found
    exact absurd rfl (head_all '/' (by rw [found]; rfl)).1
  · rename_i found
    exact absurd rfl (head_all '%' (by rw [found]; rfl)).2
  · rfl

/-- A pattern that was ended by a slash is read again if a slash follows it. -/
theorem splitPattern_append {pattern} (found : splitPattern chars = (pattern, rest))
    (ended : rest ≠ []) (other : List Char) :
    splitPattern (pattern ++ '/' :: other) = (pattern, other) := by
  fun_induction splitPattern chars generalizing pattern with
  | case1 =>
    cases found
    exact absurd rfl ended
  | case2 tail =>
    cases found
    rfl
  | case3 c tail inner after split_eq ih =>
    obtain ⟨rfl, rfl⟩ := Prod.mk.inj found
    simp only [cons_append, splitPattern, ih split_eq]
  | case4 c tail no_slash no_escape inner after split_eq ih =>
    obtain ⟨rfl, rfl⟩ := Prod.mk.inj found
    have no_backslash : c ≠ '\\' := by
      rintro rfl
      -- a backslash without a character behind it ends the text
      cases tail with
      | nil =>
        cases split_eq
        exact ended rfl
      | cons d tail => exact no_escape d tail rfl rfl
    rw [cons_append, splitPattern, ih split_eq]
    · exact no_slash
    · exact fun d more backslash _ => no_backslash backslash

theorem split_text {other} (found : split chars = (range, rest)) (starts : StartsCommand other)
    (same : other.head? = rest.head?) : split (range.text.toList ++ other) = (range, other) := by
  unfold split at found
  split at found
  · rename_i tail
    obtain ⟨rfl, rfl⟩ := Prod.mk.inj found
    have ended : (splitPattern tail).2 ≠ [] := by
      intro empty
      rw [empty] at same
      exact starts.ne_nil (head?_eq_none_iff.mp same)
    have text_eq : (select (String.ofList (splitPattern tail).1)).text.toList ++ other =
        '/' :: ((splitPattern tail).1 ++ '/' :: other) := by simp [text]
    rw [text_eq, split, splitPattern_append rfl ended]
  · obtain ⟨rfl, rfl⟩ := Prod.mk.inj found
    rfl
  · obtain ⟨ends, ⟨bound, rfl⟩ | ⟨start, stop, rfl⟩⟩ := splitNumbers_cases found
    · have text_eq : (bound.elim current line).text.toList = boundDigits bound := by
        cases bound <;> simp [text, boundDigits]
      have outside : ∀ c ∈ other.head?, c ≠ '/' ∧ c ≠ '%' := fun c head =>
        ⟨starts.head_ne head (by decide) (by decide), starts.head_ne head (by decide) (by decide)⟩
      rw [text_eq, split_boundDigits outside, splitNumbers_one starts (same ▸ ends)]
    · obtain whole | text_eq := text_ofBounds start stop
      · rw [whole]
        rfl
      · have outside : ∀ c ∈ (',' :: (boundDigits stop ++ other)).head?, c ≠ '/' ∧ c ≠ '%' := by
          rintro _ ⟨⟩
          decide
        rw [text_eq, append_assoc, cons_append, split_boundDigits outside,
          splitNumbers_two starts (same ▸ ends)]

theorem splitPattern_prefix_suffix (chars : List Char) :
    (splitPattern chars).1 <+: chars ∧ (splitPattern chars).2 <:+ chars := by
  fun_induction splitPattern chars with
  | case1 => exact ⟨prefix_rfl, suffix_rfl⟩
  | case2 tail => exact ⟨ nil_prefix, suffix_cons _ _⟩
  | case3 c tail inner after split_eq ih =>
    rw [split_eq] at ih
    refine ⟨by simpa using ih.1, ?_⟩
    exact ih.2.trans ((suffix_cons c tail).trans (suffix_cons _ _))
  | case4 c tail _ _ inner after split_eq ih =>
    rw [split_eq] at ih
    exact ⟨by simpa using ih.1, ih.2.trans (suffix_cons c tail)⟩

theorem splitNumbers_suffix (text : List Char) : (splitNumbers text).2 <:+ text := by
  have dropped : text.dropWhile isDecimal <:+ text := dropWhile_suffix _
  unfold splitNumbers
  dsimp only
  split
  · rename_i afterComma found
    have comma : afterComma <:+ text := by
      refine (suffix_cons ',' afterComma).trans ?_
      rw [← found]
      exact (dropWhile_suffix _).trans dropped
    exact (dropWhile_suffix _).trans ((dropWhile_suffix _).trans comma)
  · split <;> exact dropped

theorem split_suffix (text : List Char) : (split text).2 <:+ text := by
  unfold split
  split
  · rename_i tail
    exact (splitPattern_prefix_suffix tail).2.trans (suffix_cons '/' tail)
  · exact suffix_cons _ _
  · exact splitNumbers_suffix text

theorem pattern_part {pattern} (found : split chars = (select pattern, rest)) :
    pattern.toList <:+: chars := by
  unfold split at found
  split at found
  · rename_i tail
    obtain ⟨same, _⟩ := Prod.mk.inj found
    rw [← LineRange.select.inj same, String.toList_ofList]
    exact (splitPattern_prefix_suffix tail).1.isInfix.trans (suffix_cons '/' tail).isInfix
  · cases found
  · obtain ⟨_, ⟨bound, same⟩ | ⟨start, stop, same⟩⟩ := splitNumbers_cases found
    · cases bound <;> cases same
    · cases start <;> cases stop <;> cases same

/-- The text of a range stays as it is when continuations are joined. -/
theorem joinContinued_text {range : LineRange}
    (uncontinued : ∀ pattern, range = select pattern → ¬Continued pattern.toList)
    (rest : List Char) :
    Line.joinContinued (range.text.toList ++ rest) =
      range.text.toList ++ Line.joinContinued rest := by
  have digits (n : Nat) : '\\' ∉ Nat.toDigits 10 n := fun mem => by
    have := Lexer.isDigit_of_mem mem
    revert this
    decide
  cases range with
  | select pattern =>
    have text_eq (behind : List Char) : (select pattern).text.toList ++ behind =
        ['/'] ++ (pattern.toList ++ '/' :: behind) := by simp [text]
    rw [text_eq, Line.joinContinued_append_of_plain (by decide),
      Line.joinContinued_append_cons (uncontinued pattern rfl) (by decide) (by decide), text_eq]
    exact congrArg (fun behind => ['/'] ++ (pattern.toList ++ behind))
      (Line.joinContinued_append_of_plain (by decide : '\\' ∉ ['/']) rest)
  | _ =>
    refine Line.joinContinued_append_of_plain ?_ rest
    simp [text, digits]

theorem head_text (head : c ∈ range.text.toList.head?) :
    Text.isBlank c = false ∧ c ≠ ':' ∧ c ≠ '"' := by
  have digit {n : Nat} (rest : List Char) (first : c ∈ (Nat.toDigits 10 n ++ rest).head?) :
      Text.isBlank c = false ∧ c ≠ ':' ∧ c ≠ '"' := by
    rw [head?_append_of_ne_nil _ Nat.toDigits_ne_nil] at first
    have digit := Lexer.isDigit_of_mem (mem_of_mem_head? first)
    refine ⟨Lexer.isBlank_of_isDigit digit, ?_, ?_⟩ <;> rintro rfl <;> revert digit <;> decide
  cases range with
  | current => cases head
  | whole | upTo | select =>
    obtain rfl : _ = c := by simpa [text] using head
    decide
  | line n => exact digit [] (by simpa [text] using head)
  | «from» n => exact digit [','] (by simpa [text] using head)
  | between n m => exact digit (',' :: Nat.toDigits 10 m) (by simpa [text] using head)

end LineRange

/-! ### Statements -/

namespace Line

/-- The parameters of a statement and the space before them. -/
def spacedParams (line : Line) : List Char :=
  if line.params = "" then [] else ' ' :: line.params.toList

/-- The text of a statement after its range. -/
def body (line : Line) : List Char :=
  line.command.toList ++ ((if line.bang then ['!'] else []) ++ line.spacedParams)

theorem toList_text (line : Line) : line.text.toList = line.range.text.toList ++ line.body := by
  unfold text body spacedParams
  split <;> split <;> simp_all

/-- What is true of every statement that was read. -/
structure Proper (line : Line) : Prop where
  word : ∀ c ∈ line.command.toList, Text.isAlphanumeric c = true
  named : line.command = "" → line.bang = true
  visible_first : ∀ c ∈ line.params.toList.head?, Text.isBlank c = false
  visible_last : ∀ c ∈ line.params.toList.getLast?, Text.isBlank c = false
  uncontinued : ¬Continued line.params.toList
  pattern_uncontinued : ∀ pattern, line.range = .select pattern → ¬Continued pattern.toList
  range : LineRange.split (line.range.text.toList ++ line.body) = (line.range, line.body)

namespace Proper

variable {line : Line} (proper : line.Proper)
include proper

theorem startsCommand : StartsCommand line.body := by
  unfold body
  cases letters : line.command.toList with
  | cons c more => exact ⟨c, rfl, .inl (proper.word c (by rw [letters]; exact mem_cons_self))⟩
  | nil =>
    rw [proper.named (String.toList_eq_nil_iff.mp letters)]
    exact ⟨'!', rfl, .inr rfl⟩

theorem head_text (head : c ∈ line.text.toList.head?) :
    Text.isBlank c = false ∧ c ≠ ':' ∧ c ≠ '"' := by
  rw [toList_text, List.head?_append, Option.mem_def, Option.or_eq_some_iff] at head
  obtain head | ⟨_, head⟩ := head
  · exact LineRange.head_text head
  · have starts := proper.startsCommand
    exact ⟨starts.head_visible head, starts.head_ne head (by decide) (by decide),
      starts.head_ne head (by decide) (by decide)⟩

theorem last_visible (last : c ∈ line.text.toList.getLast?) : Text.isBlank c = false := by
  have body_ne := proper.startsCommand.ne_nil
  rw [toList_text, List.getLast?_append_of_ne_nil _ body_ne, body, List.getLast?_append,
    List.getLast?_append, Option.mem_def, Option.or_eq_some_iff, Option.or_eq_some_iff] at last
  obtain (last | ⟨_, last⟩) | ⟨_, last⟩ := last
  · unfold spacedParams at last
    split at last
    · cases last
    · rename_i params_ne
      rw [List.getLast?_cons_of_ne_nil (by simpa using params_ne)] at last
      exact proper.visible_last c last
  · split at last
    · cases last
      decide
    · cases last
  · exact Text.isBlank_of_isAlphanumeric (proper.word c (List.mem_of_getLast? last))

theorem joinContinued_text : joinContinued line.text.toList = line.text.toList := by
  have word : '\\' ∉ line.command.toList := fun mem => by
    have := proper.word _ mem
    revert this
    decide
  have bang : '\\' ∉ (if line.bang then ['!'] else []) := by split <;> decide
  have params : joinContinued line.spacedParams = line.spacedParams := by
    unfold spacedParams
    split
    · rfl
    · exact (joinContinued_append_of_plain (by decide : '\\' ∉ [' ']) _).trans
        (congrArg (' ' :: ·) (joinContinued_eq_self proper.uncontinued))
  rw [toList_text, LineRange.joinContinued_text proper.pattern_uncontinued, body,
    joinContinued_append_of_plain word, joinContinued_append_of_plain bang, params]

theorem normalize_text : normalize line.text.toList = line.text.toList := by
  have visible : ∀ c ∈ line.text.toList.head?, Text.isBlank c = false :=
    fun c head => (proper.head_text head).1
  have no_colon : ∀ c ∈ line.text.toList.head?, (c == ':') = false :=
    fun c head => beq_false_of_ne (proper.head_text head).2.1
  have visible_end : ∀ c ∈ line.text.toList.reverse.head?, Text.isBlank c = false := by
    intro c last
    rw [List.head?_reverse] at last
    exact proper.last_visible last
  have trimmed : Text.trim line.text.toList = line.text.toList := by
    rw [Text.trim, Text.trimStart, Text.dropLeading, dropWhile_eq_self visible, Text.trimEnd,
      Text.dropTrailing, dropWhile_eq_self visible_end, List.reverse_reverse]
  rw [normalize, proper.joinContinued_text, trimmed, dropWhile_eq_self no_colon, Text.trimStart,
    Text.dropLeading, dropWhile_eq_self visible]

theorem splitCommand_body : splitCommand line.body =
    (line.command.toList, (if line.bang then ['!'] else []) ++ line.spacedParams) := by
  have ends : ∀ c ∈ ((if line.bang then ['!'] else []) ++ line.spacedParams).head?,
      Text.isAlphanumeric c = false := by
    unfold spacedParams
    split <;> split <;> rintro _ ⟨⟩ <;> decide
  obtain ⟨taken, dropped⟩ := Lexer.span_append proper.word ends
  exact Prod.ext taken dropped

omit proper in
theorem splitBang_spacedParams :
    splitBang ((if line.bang then ['!'] else []) ++ line.spacedParams) =
      (line.bang, line.spacedParams) := by
  unfold splitBang spacedParams
  split <;> split <;> simp_all

theorem trimStart_spacedParams : Text.trimStart line.spacedParams = line.params.toList := by
  unfold spacedParams
  split
  · rename_i empty
    rw [empty]
    rfl
  · exact (List.dropWhile_cons_of_pos (by decide : Text.isBlank ' ' = true)).trans
      (dropWhile_eq_self proper.visible_first)

/-- The text of a proper statement is read as the statement. -/
theorem parse?_text (number : Nat) :
    parse? line.text.toList number = some { line with number := number } := by
  have command_or_bang : (!line.bang && line.command.toList.isEmpty) = false := by
    cases bang : line.bang with
    | true => rfl
    | false =>
      have named : line.command ≠ "" := fun empty => by simp [proper.named empty] at bang
      simpa using named
  unfold parse?
  rw [proper.normalize_text]
  split
  · rename_i empty
    rw [toList_text, List.append_eq_nil_iff] at empty
    exact absurd empty.2 proper.startsCommand.ne_nil
  · rename_i rest quote
    exact absurd rfl (proper.head_text (by rw [quote]; rfl)).2.2
  · simp only [toList_text, proper.range, proper.splitCommand_body, splitBang_spacedParams,
      proper.trimStart_spacedParams, command_or_bang, String.ofList_toList]
    rfl

end Proper

/-! ### Statements that were read -/

theorem startsCommand_iff :
    StartsCommand rest ↔
      (splitCommand rest).1 ≠ [] ∨ (splitBang (splitCommand rest).2).1 = true := by
  cases rest with
  | nil => simp [StartsCommand, splitCommand, splitBang]
  | cons c more =>
    by_cases word : Text.isAlphanumeric c = true
    · simp [StartsCommand, splitCommand, word]
    · simp [StartsCommand, splitCommand, splitBang, word]

/-- A statement is read from its range and the text after it. -/
theorem exists_rest_of_parse? {line} (parsed : parse? text number = some line) :
    ∃ rest, LineRange.split (normalize text) = (line.range, rest) ∧ StartsCommand rest ∧
      line.command.toList = (splitCommand rest).1 ∧
      line.bang = (splitBang (splitCommand rest).2).1 ∧
      line.params.toList = Text.trimStart (splitBang (splitCommand rest).2).2 := by
  unfold parse? at parsed
  split at parsed
  · cases parsed
  · cases parsed
  · dsimp only at parsed
    split at parsed
    · cases parsed
    · rename_i something
      cases parsed
      refine ⟨(LineRange.split (normalize text)).2, rfl, startsCommand_iff.mpr ?_,
        String.toList_ofList, rfl, String.toList_ofList⟩
      simpa [or_comm, imp_iff_or_not] using something

theorem normalize_suffix (text : List Char) : normalize text <:+ Text.trim (joinContinued text) :=
  (List.dropWhile_suffix _).trans (List.dropWhile_suffix _)

theorem normalize_part (text : List Char) : normalize text <:+: joinContinued text := by
  have trimmed : Text.trimEnd (Text.trimStart (joinContinued text)) <+:
      Text.trimStart (joinContinued text) := by
    rw [← List.reverse_suffix, Text.trimEnd, Text.dropTrailing, List.reverse_reverse]
    exact List.dropWhile_suffix _
  exact (normalize_suffix text).isInfix.trans
    (trimmed.isInfix.trans (List.dropWhile_suffix _).isInfix)

theorem visible_of_suffix (suffix : part <:+ normalize text) (last : c ∈ part.getLast?) :
    Text.isBlank c = false := by
  obtain ⟨front, whole⟩ := suffix.trans (normalize_suffix text)
  have last_trimmed : c ∈ (Text.trim (joinContinued text)).getLast? := by
    rw [← whole, List.getLast?_append, Option.mem_def.mp last]
    rfl
  rw [Text.trim, Text.trimEnd, Text.dropTrailing, List.getLast?_reverse] at last_trimmed
  exact head_dropWhile last_trimmed

/-- What is read is proper, if no continuation is left after continuations were joined. -/
theorem proper_of_parse? {line} (joined : ¬Continued (joinContinued text))
    (parsed : parse? text number = some line) : line.Proper := by
  obtain ⟨rest, found, starts, command_eq, bang_eq, params_eq⟩ := exists_rest_of_parse? parsed
  have same_head : line.body.head? = rest.head? := by
    have ⟨c, head, first⟩ := starts
    obtain ⟨more, rfl⟩ := List.head?_eq_some_iff.mp head
    rw [body, command_eq, bang_eq]
    obtain word | rfl := first
    · simp [splitCommand, word]
    · have no_word : Text.isAlphanumeric '!' = false := by decide
      simp [splitCommand, splitBang, no_word]
  have rest_suffix : rest <:+ normalize text := by
    have suffix := LineRange.split_suffix (normalize text)
    rwa [found] at suffix
  have params_suffix : line.params.toList <:+ normalize text := by
    rw [params_eq]
    exact (List.dropWhile_suffix _).trans ((List.dropWhile_suffix _).trans
      ((List.dropWhile_suffix _).trans rest_suffix))
  constructor
  case word =>
    intro c mem
    rw [command_eq] at mem
    exact List.mem_takeWhile_imp mem
  case named =>
    intro empty
    rw [bang_eq]
    refine (startsCommand_iff.mp starts).resolve_left fun nonempty => nonempty ?_
    rw [← command_eq, empty]
    rfl
  case visible_first =>
    intro c head
    rw [params_eq] at head
    exact head_dropWhile head
  case visible_last => exact fun c => visible_of_suffix params_suffix
  case uncontinued =>
    intro continued
    exact joined (continued.of_part (params_suffix.isInfix.trans (normalize_part text)))
  case pattern_uncontinued =>
    intro pattern same continued
    rw [same] at found
    exact joined (continued.of_part ((LineRange.pattern_part found).trans (normalize_part text)))
  case range =>
    refine LineRange.split_text found ?_ same_head
    rwa [StartsCommand, same_head]

/-- The text of a statement is read as the same statement, if joining the continuations of the
original text leaves none. -/
theorem parse?_text_of_parse? {text : List Char} {number : Nat} {line : Line}
    (joined : ¬Continued (joinContinued text)) (parsed : parse? text number = some line)
    (other : Nat) : parse? line.text.toList other = some { line with number := other } :=
  (proper_of_parse? joined parsed).parse?_text other

/-- An escaped slash and backslash in the pattern, and bangs after a continuation in the parameters.
-/
theorem parse?_text_of_parse?_pattern :
    let text := ":/a\\/b\\\\ /²!!!\\\n  !! \"x | y ".toList
    let line : Line := ⟨.select "a\\/b\\\\ ", "²", true, "!! \"x | y", 7⟩
    ¬Continued (joinContinued text) ∧ parse? text 7 = some line ∧
      line.text = "/a\\/b\\\\ /²! !! \"x | y" ∧
      parse? line.text.toList 0 = some { line with number := 0 } := by
  have joined : ¬Continued (joinContinued ":/a\\/b\\\\ /²!!!\\\n  !! \"x | y ".toList) := by
    rintro ⟨before, blanks, after, _, split⟩
    have lineEnd : '\n' ∈ joinContinued ":/a\\/b\\\\ /²!!!\\\n  !! \"x | y ".toList := by
      rw [split]
      simp
    revert lineEnd
    decide +kernel
  have parsed : parse? ":/a\\/b\\\\ /²!!!\\\n  !! \"x | y ".toList 7 =
      some ⟨.select "a\\/b\\\\ ", "²", true, "!! \"x | y", 7⟩ := by decide +kernel
  exact ⟨joined, parsed, by decide +kernel, parse?_text_of_parse? joined parsed 0⟩

end Line

end Vimlet
