import Mathlib.Data.List.Induction
import Vimlet.Proofs.Line.Division

/-!
# Scripts joined at a line end

A line end that no backslash protects ends the segment before it, and a scan starts afresh after it.
So the statements of two texts with such a line end in between are those of both, with the numbers
of their lines moved on. A comment line adds nothing to those after it, unless a backslash protects
its line end.
-/

namespace Vimlet

open List

variable {escaped : Bool} {taken text : List Char}

/-- The statement on a later line. -/
def Line.moved (count : Nat) (line : Line) : Line := { line with number := line.number + count }

/-- The end of a text is not escaped if that of more text is not. -/
theorem endsEscaped_of_append {front back} (free : endsEscaped (front ++ back) = false) :
    endsEscaped back = false := by
  induction back using reverseRecOn with
  | nil => rfl
  | append_singleton back c ih =>
    rw [← append_assoc, endsEscaped_concat] at free
    rw [endsEscaped_concat]
    split
    · rename_i blank
      exact ih (by rwa [if_pos blank] at free)
    · rename_i visible
      rwa [if_neg visible] at free

theorem endsEscaped_quote (text : List Char) : endsEscaped ('"' :: text) = endsEscaped text := by
  induction text using List.reverseRecOn with
  | nil => decide
  | append_singleton text c ih =>
    rw [← List.cons_append, endsEscaped_concat, endsEscaped_concat, ih]

/-! ### Moving a scan to a later line -/

theorem Line.parse?_moved (text : List Char) (number count : Nat) :
    parse? text (number + count) = (parse? text number).map (moved count) := by
  unfold parse?
  split
  · rfl
  · rfl
  · dsimp only
    split <;> rfl

def Segment.moved (count : Nat) (segment : Segment) : Segment :=
  { segment with nextNumber := segment.nextNumber + count }

namespace Scan

/-- The same text on a later line. -/
def moved (count : Nat) (scan : Scan) : Scan := { scan with number := scan.number + count }

theorem takeFrom_moved (comment escaped : Bool) (taken : List Char) (number count : Nat)
    (text : List Char) :
    takeFrom comment escaped taken (number + count) text =
      (takeFrom comment escaped taken number text).moved count := by
  induction text generalizing escaped taken number with
  | nil => rfl
  | cons c rest ih =>
    have next_number : (if c == '\n' then number + count + 1 else number + count) =
        (if c == '\n' then number + 1 else number) + count := by
      split <;> omega
    rw [takeFrom_cons, takeFrom_cons, next_number, ih]
    split <;> rfl

theorem segment_moved (count : Nat) (scan : Scan) :
    (scan.moved count).segment = scan.segment.moved count := takeFrom_moved ..

theorem first?_moved (count : Nat) (scan : Scan) :
    (scan.moved count).first? = scan.first?.map (Line.moved count) := by
  rw [first?, segment_moved]
  exact Line.parse?_moved _ scan.number count

theorem skip_moved (count : Nat) (scan : Scan) :
    (scan.moved count).skip = scan.skip.moved count := by
  rw [skip, segment_moved]
  rfl

theorem lines_moved (count : Nat) (scan : Scan) :
    (scan.moved count).lines = scan.lines.map (Line.moved count) := by
  induction length : scan.rest.length using Nat.strong_induction_on generalizing scan with
  | _ length_left ih =>
  by_cases more : scan.rest = []
  · rw [lines_of_nil more, @lines_of_nil (scan.moved count) more]
    rfl
  · have shorter : scan.skip.rest.length < length_left := length ▸ segment_rest_length_lt more
    rw [lines_of_ne_nil more, @lines_of_ne_nil (scan.moved count) more, first?_moved,
      skip_moved, ih _ shorter scan.skip rfl, List.map_append]
    cases scan.first? <;> rfl

/-! ### Joining -/

/-- The first segment of a text, when a line end and more text follow, ends where it did, or there.
-/
inductive Joined (behind : List Char) (found : Segment) : Segment → Prop where
  | inside : Joined behind found { found with rest := found.rest ++ '\n' :: behind }
  | atEnd (last : found.rest = []) :
      Joined behind found ⟨found.reversed, behind, found.nextNumber + 1⟩

theorem takeFrom_joined (comment : Bool) (number : Nat) (text behind : List Char)
    (state : escaped = endsEscaped taken.reverse)
    (free : endsEscaped (taken.reverse ++ text) = false) :
    Joined behind (takeFrom comment escaped taken number text)
      (takeFrom comment escaped taken number (text ++ '\n' :: behind)) := by
  induction text generalizing escaped taken number with
  | nil =>
    rw [List.append_nil, ← state] at free
    subst free
    exact .atEnd rfl
  | cons c rest ih =>
    rw [List.cons_append, takeFrom_cons, takeFrom_cons]
    split
    · exact .inside
    · have next_state : (if Text.isBlank c then escaped else c == '\\') =
          endsEscaped (c :: taken).reverse := by
        rw [List.reverse_cons, endsEscaped_concat, state]
      exact ih _ next_state (by simpa using free)

theorem segment_joined (number : Nat) (behind : List Char) (free : endsEscaped text = false) :
    Joined behind (segment ⟨text, number⟩) (segment ⟨text ++ '\n' :: behind, number⟩) := by
  have indent_eq : (text ++ '\n' :: behind).takeWhile Text.isSpaceOrTab =
      text.takeWhile Text.isSpaceOrTab := by
    rw [List.takeWhile_append]
    split
    · rename_i whole
      rw [(List.takeWhile_prefix _).eq_of_length whole]
      exact List.append_nil text
    · rfl
  have body_eq : (text ++ '\n' :: behind).dropWhile Text.isSpaceOrTab =
      text.dropWhile Text.isSpaceOrTab ++ '\n' :: behind := by
    rw [List.dropWhile_append]
    split <;> simp_all [Text.isSpaceOrTab]
  have comment_eq : ((text.dropWhile Text.isSpaceOrTab ++ '\n' :: behind).head? == some '"') =
      ((text.dropWhile Text.isSpaceOrTab).head? == some '"') := by
    cases text.dropWhile Text.isSpaceOrTab <;> rfl
  have blank : ∀ c ∈ (text.takeWhile Text.isSpaceOrTab).reverse.reverse, Text.isBlank c = true := by
    rw [List.reverse_reverse]
    exact fun c mem => isBlank_of_isSpaceOrTab (List.mem_takeWhile_imp mem)
  simp only [segment, indent_eq, body_eq, comment_eq]
  refine takeFrom_joined _ number _ behind (endsEscaped_of_allBlank blank).symm ?_
  rwa [List.reverse_reverse, List.takeWhile_append_dropWhile]

theorem lines_lineEnd (behind : List Char) (number : Nat) :
    lines ⟨'\n' :: behind, number⟩ = lines ⟨behind, number + 1⟩ :=
  @lines_of_ne_nil ⟨'\n' :: behind, number⟩ (by simp)

/-- A line end that nothing protects divides the statements. -/
theorem lines_join (number : Nat) (behind : List Char) (free : endsEscaped text = false) :
    lines ⟨text ++ '\n' :: behind, number⟩ =
      lines ⟨text, number⟩ ++ lines ⟨behind, number + text.count '\n' + 1⟩ := by
  induction length : text.length using Nat.strong_induction_on generalizing text number with
  | _ length_left ih =>
  by_cases more : text = []
  · subst more
    exact lines_lineEnd behind number
  obtain ⟨stretch, cuts⟩ := @exists_cuts ⟨text, number⟩ more
  have text_eq : text = stretch.chars ++ (segment ⟨text, number⟩).rest := cuts.rest
  have number_eq : (segment ⟨text, number⟩).nextNumber = number + stretch.chars.count '\n' :=
    cuts.number
  have shorter := @segment_rest_length_lt ⟨text, number⟩ more
  have joined := segment_joined number behind free
  rw [@lines_of_ne_nil ⟨text, number⟩ more,
    @lines_of_ne_nil ⟨text ++ '\n' :: behind, number⟩ (by simp), List.append_assoc]
  simp only [first?, skip, after]
  generalize segment ⟨text ++ '\n' :: behind, number⟩ = longer at joined
  generalize segment ⟨text, number⟩ = found at text_eq number_eq shorter joined
  have count_eq : text.count '\n' = stretch.chars.count '\n' + found.rest.count '\n' := by
    rw [text_eq, List.count_append]
  cases joined with
  | inside =>
    have rest_free : endsEscaped found.rest = false := endsEscaped_of_append (text_eq ▸ free)
    rw [ih _ (length ▸ shorter) found.nextNumber rest_free rfl, number_eq, count_eq,
      Nat.add_assoc number]
  | atEnd last =>
    rw [@lines_of_nil ⟨found.rest, _⟩ last, number_eq, count_eq, last]
    rfl

end Scan

/-- Two texts with a line end in between have the statements of both, those of the second one on
later lines, if no backslash protects the line end. -/
theorem scriptLines_join (first second : String) (free : endsEscaped first.toList = false) :
    scriptLines (first ++ "\n" ++ second) =
      scriptLines first ++
        (scriptLines second).map (Line.moved (first.toList.count '\n' + 1)) := by
  have text_eq : (first ++ "\n" ++ second).toList = first.toList ++ '\n' :: second.toList := by
    simp
  have moved_eq : Scan.mk second.toList (1 + first.toList.count '\n' + 1) =
      (Scan.ofText second).moved (first.toList.count '\n' + 1) := by
    simp [Scan.ofText, Scan.moved, Nat.add_assoc]
  rw [scriptLines, Scan.ofText, text_eq, Scan.lines_join 1 _ free, moved_eq, Scan.lines_moved]
  rfl

theorem scriptLines_join_continued :
    let first := "let x = [1, \\\n  2] | \" \\| "
    let second := "\\ | echo x"
    endsEscaped first.toList = false ∧
      scriptLines (first ++ "\n" ++ second) =
        scriptLines first ++ (scriptLines second).map (Line.moved 2) := by
  have free : endsEscaped "let x = [1, \\\n  2] | \" \\| ".toList = false := by decide +kernel
  exact ⟨free, scriptLines_join _ _ free⟩

/-! ### Comments -/

theorem Text.trimEnd_cons {c} (visible : isBlank c = false) (text : List Char) :
    trimEnd (c :: text) = c :: trimEnd text := by
  simp only [trimEnd, dropTrailing, reverse_cons, dropWhile_append]
  split
  · rename_i none_left
    simp [visible, isEmpty_iff.mp none_left]
  · simp

theorem Line.parse?_quote (text : List Char) (number : Nat) :
    parse? ('"' :: text) number = none := by
  have visible : Text.isBlank '"' = false := by decide
  have normalized : normalize ('"' :: text) = '"' :: Text.trimEnd (joinContinued text) := by
    change Text.trimStart ((Text.trimEnd (Text.trimStart ('"' :: joinContinued text))).dropWhile _) = _
    simp [Text.trimStart, Text.dropLeading, Text.trimEnd_cons, visible]
  rw [parse?, normalized]
  rfl

namespace Scan

variable {comment : Bool} (number : Nat)

theorem takeFrom_append (behind : List Char) (state : escaped = endsEscaped taken.reverse)
    (inner : ∀ c ∈ text, isSeparator comment c = false) :
    takeFrom comment escaped taken number (text ++ behind) =
      takeFrom comment (endsEscaped (taken.reverse ++ text)) (text.reverse ++ taken) number
        behind := by
  induction text generalizing escaped taken with
  | nil => simp [state]
  | cons c rest ih =>
    have passes : isSeparator comment c = false := inner c (by simp)
    have no_line_end : (c == '\n') = false := by
      cases line_end : c == '\n' with
      | false => rfl
      | true => simp [isSeparator, line_end] at passes
    have next_state : (if Text.isBlank c then escaped else c == '\\') =
        endsEscaped (c :: taken).reverse := by
      rw [List.reverse_cons, endsEscaped_concat, state]
    rw [List.cons_append, takeFrom_cons, passes, no_line_end]
    simpa using ih next_state fun d mem => inner d (by simp [mem])

/-- Where a segment ends does not depend on what was read of it before. -/
theorem after_takeFrom (comment escaped : Bool) (taken other : List Char) (text : List Char) :
    after (takeFrom comment escaped taken number text) =
      after (takeFrom comment escaped other number text) := by
  induction text generalizing escaped taken other number with
  | nil => rfl
  | cons c rest ih =>
    rw [takeFrom_cons, takeFrom_cons]
    split
    · rfl
    · exact ih ..

theorem segment_quote (text : List Char) :
    segment ⟨'"' :: text, number⟩ = takeFrom true false ['"'] number text := rfl

theorem lines_quote (text : List Char) :
    lines ⟨'"' :: text, number⟩ = (after (takeFrom true false ['"'] number text)).lines := by
  obtain ⟨body, separator, reads⟩ :=
    @takeFrom_reads true false ['"'] number text (by decide)
  have no_statement : first? ⟨'"' :: text, number⟩ = none := by
    rw [first?, segment_quote, reads.reversed]
    exact Line.parse?_quote body number
  rw [@lines_of_ne_nil ⟨'"' :: text, number⟩ (by simp), no_statement]
  rfl

/-- A backslash at the end of a comment makes the next line part of the comment; else that line is
scanned from its start. -/
theorem lines_comment (oneLine : '\n' ∉ text) (behind : List Char) :
    lines ⟨'"' :: (text ++ '\n' :: behind), number⟩ =
      if endsEscaped text then lines ⟨'"' :: '\\' :: behind, number + 1⟩
      else lines ⟨behind, number + 1⟩ := by
  have inner : ∀ c ∈ text, isSeparator true c = false := by
    intro c mem
    have no_line_end : c ≠ '\n' := fun same => oneLine (same ▸ mem)
    simp [isSeparator, no_line_end]
  have start : false = endsEscaped ['"'].reverse := by decide
  have state : endsEscaped (['"'].reverse ++ text) = endsEscaped text := endsEscaped_quote text
  rw [lines_quote, takeFrom_append number _ start inner, state]
  cases endsEscaped text with
  | false => rfl
  | true =>
    rw [if_pos rfl, lines_quote]
    exact congrArg lines (after_takeFrom (number + 1) true true _ ['\\', '"'] behind)

end Scan

/-- A comment line has no statements, and those after it are on later lines, unless a backslash
protects its line end. Then the next line is part of the comment. -/
theorem scriptLines_comment (comment script : String) (oneLine : '\n' ∉ comment.toList) :
    scriptLines ("\"" ++ comment ++ "\n" ++ script) =
      (if endsEscaped comment.toList then scriptLines ("\"\\" ++ script)
        else scriptLines script).map (Line.moved 1) := by
  have text_eq : ("\"" ++ comment ++ "\n" ++ script).toList =
      '"' :: (comment.toList ++ '\n' :: script.toList) := by simp
  have continued_eq : ("\"\\" ++ script).toList = '"' :: '\\' :: script.toList := by simp
  rw [scriptLines, Scan.ofText, text_eq, Scan.lines_comment 1 oneLine]
  split
  · rw [scriptLines, Scan.ofText, continued_eq, ← Scan.lines_moved]
    rfl
  · rw [scriptLines, Scan.ofText, ← Scan.lines_moved]
    rfl

theorem scriptLines_comment_barred :
    '\n' ∉ " a | \\ \"b".toList ∧
      scriptLines ("\"" ++ " a | \\ \"b" ++ "\n" ++ "let x = 1 | echo x") =
        (scriptLines "let x = 1 | echo x").map (Line.moved 1) := by
  have oneLine : '\n' ∉ " a | \\ \"b".toList := by decide
  have free : endsEscaped " a | \\ \"b".toList = false := by decide
  have lines_eq := scriptLines_comment " a | \\ \"b" "let x = 1 | echo x" oneLine
  rw [free, if_neg Bool.false_ne_true] at lines_eq
  exact ⟨oneLine, lines_eq⟩

/-- A comment that ends in a backslash hides the statement on the next line. -/
theorem scriptLines_comment_hides :
    '\n' ∉ " note \\".toList ∧
      scriptLines ("\"" ++ " note \\" ++ "\n" ++ "let x = 1") = [] ∧
      scriptLines ("\"" ++ " note \\" ++ "\n" ++ "let x = 1") ≠
        (scriptLines "let x = 1").map (Line.moved 1) := by
  decide +kernel

end Vimlet
