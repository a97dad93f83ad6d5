import Mathlib.Data.List.TakeWhile
import Vimlet.Line.Source

/-!
# A scan divides the script

A scan cuts a script into stretches, each a segment and the separator after it. A segment ends at
the first line end or bar that no backslash protects; the bars of a comment do not count.
-/

namespace Vimlet

open List Text

variable {comment : Bool} {text : List Char} {scan : Scan} {c : Char}

/-- The last character of a text other than blanks is a backslash. -/
def endsEscaped (text : List Char) : Bool := (trimEnd text).getLast? == some '\\'

theorem endsEscaped_concat (text : List Char) (c : Char) :
    endsEscaped (text ++ [c]) = if isBlank c then endsEscaped text else c == '\\' := by
  cases blank : isBlank c with
  | true | false => simp [endsEscaped, trimEnd, dropTrailing, blank]

theorem endsEscaped_of_allBlank (blank : ∀ c ∈ text, isBlank c = true) :
    endsEscaped text = false := by
  have trimmed : trimEnd text = [] := by
    simpa [trimEnd, dropTrailing, dropWhile_eq_nil_iff] using blank
  rw [endsEscaped, trimmed]
  rfl

/-- A character that ends a segment if no backslash protects it. -/
def isSeparator (comment : Bool) (c : Char) : Bool := c == '\n' || (c == '|' && !comment)

/-- Every separator inside of a text, with something before the text, is protected by a backslash.
-/
def Unbroken (comment : Bool) (before text : List Char) : Prop :=
  ∀ front c back, text = front ++ c :: back → isSeparator comment c = true →
    endsEscaped (before ++ front) = true

namespace Unbroken

variable {before : List Char}

theorem nil : Unbroken comment before [] := by
  intro front c back split
  simp at split

theorem cons (free : isSeparator comment c = true → endsEscaped before = true)
    (rest : Unbroken comment (before ++ [c]) text) : Unbroken comment before (c :: text) := by
  intro front d back split separates
  cases front with
  | nil =>
    obtain ⟨rfl, rfl⟩ := List.cons.inj split
    simpa using free separates
  | cons first front =>
    obtain ⟨rfl, text_eq⟩ := List.cons.inj split
    simpa using rest front d back text_eq separates

/-- What stands before a text may be counted as part of it if it holds no separators. -/
theorem of_append {front} (free : ∀ c ∈ front, isSeparator comment c = false)
    (rest : Unbroken comment (before ++ front) text) : Unbroken comment before (front ++ text) := by
  induction front generalizing before with
  | nil => simpa using rest
  | cons c front ih =>
    have others_free : ∀ d ∈ front, isSeparator comment d = false :=
      fun d mem => free d (by simp [mem])
    refine cons (fun separates => ?_) (ih others_free (by simpa using rest))
    rw [free c (by simp)] at separates
    cases separates

end Unbroken

/-! ### Segments -/

/-- A segment of a script and the separator that ends it, unless the script ends there. -/
structure Stretch where
  segment : List Char
  separator : Option Char
deriving DecidableEq, Repr

namespace Stretch

def chars (stretch : Stretch) : List Char := stretch.segment ++ stretch.separator.toList

/-- The first character of the segment other than spaces and tabs is a double quote. -/
def isComment (stretch : Stretch) : Bool :=
  (stretch.segment.dropWhile isSpaceOrTab).head? == some '"'

/-- A stretch ends at its first separator that no backslash protects. -/
structure Proper (stretch : Stretch) : Prop where
  nonempty : stretch.chars ≠ []
  unbroken : Unbroken stretch.isComment [] stretch.segment
  separator {c : Char} : stretch.separator = some c →
    isSeparator stretch.isComment c = true ∧ endsEscaped stretch.segment = false

end Stretch

namespace Scan

/-- The text read up to a separator, after some text before it. -/
structure Reads (comment : Bool) (before : List Char) (number : Nat) (text : List Char)
    (found : Segment) (body : List Char) (separator : Option Char) : Prop where
  reversed : found.reversed.reverse = before ++ body
  text_eq : text = body ++ separator.toList ++ found.rest
  last : separator = none → found.rest = []
  number_eq : found.nextNumber = number + (body ++ separator.toList).count '\n'
  unbroken : Unbroken comment before body
  separator {c : Char} : separator = some c →
    isSeparator comment c = true ∧ endsEscaped (before ++ body) = false

theorem takeFrom_cons (comment escaped : Bool) (taken : List Char) (number : Nat) (c : Char)
    (rest : List Char) :
    takeFrom comment escaped taken number (c :: rest) =
      if isSeparator comment c && !escaped then
        ⟨taken, rest, if c == '\n' then number + 1 else number⟩
      else
        takeFrom comment (if Text.isBlank c then escaped else c == '\\') (c :: taken)
          (if c == '\n' then number + 1 else number) rest := rfl

theorem takeFrom_reads (comment : Bool) {escaped taken} (number : Nat) (text : List Char)
    (state : escaped = endsEscaped taken.reverse) :
    ∃ body separator, Reads comment taken.reverse number text
      (takeFrom comment escaped taken number text) body separator := by
  induction text generalizing escaped taken number with
  | nil =>
    exact ⟨[], none, by simp [takeFrom], rfl, fun _ => rfl, rfl, .nil, nofun⟩
  | cons c rest ih =>
    rw [takeFrom_cons]
    by_cases ends : (isSeparator comment c && !escaped) = true
    · rw [if_pos ends]
      simp only [Bool.and_eq_true, Bool.not_eq_true'] at ends
      refine ⟨[], some c, by simp, by simp, nofun, ?_, .nil, fun same => ?_⟩
      · by_cases line_end : c = '\n' <;> simp [line_end]
      · cases same
        exact ⟨ends.1, by simpa [← state] using ends.2⟩
    · rw [if_neg ends]
      have next_state : (if Text.isBlank c then escaped else c == '\\') =
          endsEscaped (c :: taken).reverse := by
        rw [List.reverse_cons, endsEscaped_concat, state]
      obtain ⟨body, separator, reads⟩ :=
        ih (if c == '\n' then number + 1 else number) next_state
      refine ⟨c :: body, separator, ?_, ?_, reads.last, ?_, ?_, fun same => ?_⟩
      · simpa using reads.reversed
      · rw [List.cons_append, List.cons_append, ← reads.text_eq]
      · rw [reads.number_eq]
        simp only [List.cons_append, List.count_cons]
        split <;> omega
      · refine .cons (fun separates => ?_) (by simpa using reads.unbroken)
        rw [← state]
        simpa [separates] using ends
      · simpa using reads.separator same

/-- The first segment from a place on belongs to a stretch. -/
structure Cuts (scan : Scan) (stretch : Stretch) : Prop where
  segment : scan.segment.reversed.reverse = stretch.segment
  rest : scan.rest = stretch.chars ++ scan.segment.rest
  last : stretch.separator = none → scan.segment.rest = []
  number : scan.segment.nextNumber = scan.number + stretch.chars.count '\n'
  proper : stretch.Proper

theorem isBlank_of_isSpaceOrTab (blank : Text.isSpaceOrTab c = true) : Text.isBlank c = true := by
  obtain rfl | rfl : c = ' ' ∨ c = '\t' := by simpa [Text.isSpaceOrTab] using blank
  · decide
  · decide

theorem isSeparator_of_isSpaceOrTab (blank : Text.isSpaceOrTab c = true) :
    isSeparator comment c = false := by
  obtain rfl | rfl : c = ' ' ∨ c = '\t' := by simpa [Text.isSpaceOrTab] using blank
  · cases comment <;> rfl
  · cases comment <;> rfl

/-- The spaces and tabs at the start of a segment, and what is read after them. -/
structure Indented (scan : Scan) (indent text body : List Char) (separator : Option Char) : Prop
    extends Reads (text.head? == some '"') indent scan.number text scan.segment body separator where
  split : scan.rest = indent ++ text
  blank : ∀ c ∈ indent, isSpaceOrTab c = true
  unindented : ∀ c, text.head? = some c → isSpaceOrTab c = false

theorem exists_indented (scan : Scan) :
    ∃ indent text body separator, scan.Indented indent text body separator := by
  have blank : ∀ c ∈ scan.rest.takeWhile isSpaceOrTab, isSpaceOrTab c = true :=
    fun c mem => mem_takeWhile_imp mem
  have state : false =
      endsEscaped (scan.rest.takeWhile isSpaceOrTab).reverse.reverse := by
    rw [reverse_reverse]
    exact (endsEscaped_of_allBlank fun c mem => isBlank_of_isSpaceOrTab (blank c mem)).symm
  obtain ⟨body, separator, reads⟩ := takeFrom_reads
    ((scan.rest.dropWhile isSpaceOrTab).head? == some '"') scan.number
    (scan.rest.dropWhile Text.isSpaceOrTab) state
  rw [List.reverse_reverse] at reads
  refine ⟨_, _, body, separator, reads, List.takeWhile_append_dropWhile.symm, blank, ?_⟩
  intro c first
  have stops := List.head?_dropWhile_not Text.isSpaceOrTab scan.rest
  rwa [first] at stops

namespace Indented

variable {indent body : List Char} {separator : Option Char}
  (indented : scan.Indented indent text body separator)
include indented

/-- Whether a segment is a comment is seen before it is read. -/
theorem isComment_eq :
    (text.head? == some '"') = Stretch.isComment ⟨indent ++ body, separator⟩ := by
  have dropped : (indent ++ body).dropWhile isSpaceOrTab = body.dropWhile isSpaceOrTab :=
    dropWhile_append_of_pos indented.blank
  rw [Stretch.isComment, dropped]
  cases body with
  | cons c body =>
    have first : text.head? = some c := by rw [indented.text_eq]; rfl
    rw [dropWhile_cons_of_neg (by simp [indented.unindented c first]), first]
    rfl
  | nil =>
    cases separator with
    | none =>
      have none_left : text = [] := by rw [indented.text_eq, indented.last rfl]; rfl
      rw [none_left]
      rfl
    | some c =>
      have first : text.head? = some c := by rw [indented.text_eq]; rfl
      obtain rfl | ⟨rfl, -⟩ : c = '\n' ∨ c = '|' ∧ _ := by
        simpa [isSeparator] using (indented.separator rfl).1
      · rw [first]
        rfl
      · rw [first]
        rfl

theorem cuts (more : scan.rest ≠ []) : scan.Cuts ⟨indent ++ body, separator⟩ where
  segment := indented.reversed
  rest := by
    rw [indented.split, indented.text_eq]
    simp [Stretch.chars]
  last := indented.last
  number := by
    have none_inside : indent.count '\n' = 0 := by
      refine count_eq_zero.mpr fun mem => ?_
      cases indented.blank _ mem
    rw [indented.number_eq]
    simp [Stretch.chars, none_inside]
  proper :=
    { nonempty := fun empty => by
        simp only [Stretch.chars, append_assoc, append_eq_nil_iff] at empty
        obtain ⟨rfl, rfl, no_separator⟩ := empty
        have none_after := indented.last (by simpa using no_separator)
        rw [indented.split, indented.text_eq, no_separator, none_after] at more
        exact more rfl
      unbroken := by
        have unbroken := indented.unbroken
        rw [indented.isComment_eq] at unbroken
        exact .of_append (fun c mem => isSeparator_of_isSpaceOrTab (indented.blank c mem)) unbroken
      separator := fun found => by
        have separates := indented.separator found
        rwa [indented.isComment_eq] at separates }

end Indented

theorem exists_cuts (more : scan.rest ≠ []) : ∃ stretch, scan.Cuts stretch := by
  obtain ⟨indent, text, body, separator, indented⟩ := scan.exists_indented
  exact ⟨_, indented.cuts more⟩

/-! ### Statements -/

theorem segment_rest_length_lt (more : scan.rest ≠ []) :
    scan.segment.rest.length < scan.rest.length := by
  obtain ⟨stretch, cuts⟩ := exists_cuts more
  have taken := length_pos_iff.mpr cuts.proper.nonempty
  have lengths := congrArg List.length cuts.rest
  rw [length_append] at lengths
  omega

/-- The statement of the first segment from a place on. -/
def first? (scan : Scan) : Option Line := Line.parse? scan.segment.reversed.reverse scan.number

/-- The place after the first segment from a place on. -/
def skip (scan : Scan) : Scan := after scan.segment

theorem linesWithin_of_nil (done : scan.rest = []) (fuel : Nat) : linesWithin fuel scan = [] := by
  cases fuel <;> simp [linesWithin, done]

theorem linesWithin_succ (more : scan.rest ≠ []) (fuel : Nat) :
    linesWithin (fuel + 1) scan = scan.first?.toList ++ linesWithin fuel scan.skip := by
  rw [linesWithin, if_neg (by simpa using more), first?]
  dsimp only
  split <;> simp [*, skip]

/-- More segments than characters find no more statements. -/
theorem linesWithin_eq_lines {fuel} (enough : scan.rest.length ≤ fuel) :
    linesWithin fuel scan = scan.lines := by
  have agree (left right : Nat) {scan : Scan} (enough : scan.rest.length ≤ left)
      (enough' : scan.rest.length ≤ right) : linesWithin left scan = linesWithin right scan := by
    induction left generalizing right scan with
    | zero =>
      have done := length_eq_zero_iff.mp (Nat.le_zero.mp enough)
      rw [linesWithin_of_nil done, linesWithin_of_nil done]
    | succ left ih =>
      by_cases more : scan.rest = []
      · rw [linesWithin_of_nil more, linesWithin_of_nil more]
      · have shorter : scan.skip.rest.length < scan.rest.length := segment_rest_length_lt more
        obtain ⟨right, rfl⟩ : ∃ less, right = less + 1 := ⟨right - 1, by omega⟩
        rw [linesWithin_succ more, linesWithin_succ more, ih right (by omega) (by omega)]
  exact agree fuel scan.rest.length enough le_rfl

theorem lines_of_nil (done : scan.rest = []) : scan.lines = [] :=
  linesWithin_of_nil done _

theorem lines_of_ne_nil (more : scan.rest ≠ []) :
    scan.lines = scan.first?.toList ++ scan.skip.lines := by
  have shorter : scan.skip.rest.length < scan.rest.length := segment_rest_length_lt more
  rw [← linesWithin_eq_lines (Nat.le_succ scan.rest.length), linesWithin_succ more,
    linesWithin_eq_lines shorter.le]

/-- The statements from a place on are the next one and those after it. -/
theorem lines_eq_next? (scan : Scan) :
    scan.lines = match scan.next? with
      | none => []
      | some (line, place) => line :: place.lines := by
  have within (fuel : Nat) {scan : Scan} (enough : scan.rest.length ≤ fuel) :
      scan.lines = match nextWithin fuel scan with
        | none => []
        | some (line, place) => line :: place.lines := by
    induction fuel generalizing scan with
    | zero => exact lines_of_nil (length_eq_zero_iff.mp (Nat.le_zero.mp enough))
    | succ fuel ih =>
      by_cases more : scan.rest = []
      · rw [lines_of_nil more, nextWithin, if_pos (by simpa using more)]
      · have shorter : scan.skip.rest.length < scan.rest.length := segment_rest_length_lt more
        rw [lines_of_ne_nil more, nextWithin, if_neg (by simpa using more), first?]
        dsimp only
        cases Line.parse? scan.segment.reversed.reverse scan.number with
        | some line => rfl
        | none => exact ih (by omega)
  exact within _ le_rfl

end Scan

/-! ### The division of a script -/

/-- Stretches that make up a text, of which only the last may lack a separator. -/
structure Divides (stretches : List Stretch) (text : List Char) : Prop where
  text_eq : stretches.flatMap Stretch.chars = text
  proper {stretch : Stretch} : stretch ∈ stretches → stretch.Proper
  separated {stretch} : stretch ∈ stretches.dropLast → stretch.separator ≠ none

theorem Divides.cons {stretch stretches} (proper : stretch.Proper)
    (last : stretch.separator = none → text = []) (rest : Divides stretches text) :
    Divides (stretch :: stretches) (stretch.chars ++ text) where
  text_eq := by rw [flatMap_cons, rest.text_eq]
  proper mem := by
    obtain rfl | mem := mem_cons.mp mem
    · exact proper
    · exact rest.proper mem
  separated mem unseparated := by
    cases stretches with
    | nil => cases mem
    | cons next others =>
      rw [dropLast_cons_cons] at mem
      obtain rfl | mem := mem_cons.mp mem
      · have empty := rest.text_eq.trans (last unseparated)
        rw [flatMap_cons, append_eq_nil_iff] at empty
        exact (rest.proper mem_cons_self).nonempty empty.1
      · exact rest.separated mem unseparated

/-- The statements of stretches, given the number of the line on which the first one starts. -/
def linesOf (number : Nat) : List Stretch → List Line
  | [] => []
  | stretch :: rest =>
    (Line.parse? stretch.segment number).toList ++
      linesOf (number + stretch.chars.count '\n') rest

theorem linesOf_eq_filterMap (number : Nat) (stretches : List Stretch) :
    linesOf number stretches = stretches.zipIdx.filterMap fun (stretch, place) =>
      Line.parse? stretch.segment
        (number + ((stretches.take place).flatMap Stretch.chars).count '\n') := by
  induction stretches generalizing number with
  | nil => rfl
  | cons stretch rest ih =>
    rw [linesOf, ih, zipIdx_cons, zipIdx_succ, filterMap_cons, filterMap_map]
    simp only [Function.comp_def, take_succ_cons, flatMap_cons, count_append,
      Nat.add_assoc, take_zero, flatMap_nil, count_nil, Nat.add_zero]
    cases Line.parse? stretch.segment number <;> rfl

theorem Scan.exists_division (scan : Scan) :
    ∃ stretches, Divides stretches scan.rest ∧ scan.lines = linesOf scan.number stretches := by
  induction length : scan.rest.length using Nat.strong_induction_on generalizing scan with
  | _ length_left ih =>
  by_cases more : scan.rest = []
  · exact ⟨[], ⟨more.symm, nofun, nofun⟩, lines_of_nil more⟩
  · obtain ⟨stretch, cuts⟩ := exists_cuts more
    have shorter : scan.skip.rest.length < length_left := length ▸ segment_rest_length_lt more
    obtain ⟨stretches, divides, lines_eq⟩ := ih _ shorter scan.skip rfl
    refine ⟨stretch :: stretches, ?_, ?_⟩
    · rw [cuts.rest]
      exact divides.cons cuts.proper cuts.last
    · rw [lines_of_ne_nil more, lines_eq, linesOf, first?, cuts.segment, ← cuts.number]
      rfl

namespace Source

/-- A source gives these statements one after the other, and then no more. -/
inductive Gives : Source → List Line → Prop where
  | done {source} : source.next? = none → Gives source []
  | more {source rest line lines} :
      source.next? = some (line, rest) → Gives rest lines → Gives source (line :: lines)

theorem gives_lines (scan : Scan) : (Source.scan scan).Gives scan.lines := by
  induction lines_eq : scan.lines generalizing scan with
  | nil =>
    refine .done ?_
    rw [scan.lines_eq_next?] at lines_eq
    cases found : scan.next? with
    | none => simp [next?, found]
    | some next => simp [found] at lines_eq
  | cons line lines ih =>
    rw [scan.lines_eq_next?] at lines_eq
    cases found : scan.next? with
    | none => simp [found] at lines_eq
    | some next =>
      obtain ⟨first, place⟩ := next
      rw [found] at lines_eq
      obtain ⟨rfl, rest_eq⟩ := List.cons.inj lines_eq
      exact .more (by rw [next?, found]; rfl) (ih place rest_eq)

end Source

/-- A script is divided into segments and separators, and a scan gives the statements of the
segments with the lines on which these start. -/
theorem scan_divides_script (text : String) :
    ∃ stretches, Divides stretches text.toList ∧
      (Source.scan (.ofText text)).Gives (scriptLines text) ∧
      scriptLines text = stretches.zipIdx.filterMap fun (stretch, place) =>
        Line.parse? stretch.segment
          (1 + ((stretches.take place).flatMap Stretch.chars).count '\n') := by
  obtain ⟨stretches, divides, lines_eq⟩ := (Scan.ofText text).exists_division
  refine ⟨stretches, divides, Source.gives_lines _, ?_⟩
  rw [scriptLines, lines_eq, linesOf_eq_filterMap]
  rfl

end Vimlet
