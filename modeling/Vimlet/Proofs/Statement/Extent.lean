import Vimlet.Interpreter
import Vimlet.Proofs.Session.Ending
import Vimlet.Recorder

/-!
# The extent of a block

`extent` finds the statement that closes a block with a stack of the blocks that are open. Every
walk through the block ends there, whether statements are executed, skipped or captured, whatever
conditions turn out to be, and however often a loop runs.
-/

namespace Vimlet

open Run

variable {σ : Type}
variable {lines rest : List Line} {block opened : Block} {line closing : Line} {outer : List Block}

/-- The keyword of a statement in full. -/
def Line.keyword (line : Line) : String := expandKeyword line.command

/-- The part that a statement plays in the structure of a script. -/
def Line.role (line : Line) : Role := Role.ofKeyword line.keyword

/-- Finds the statement that closes a block, and those after it; `outer` holds the blocks around the
innermost one. -/
def extent : Block → List Block → List Line → Except Fault (Line × List Line)
  | block, _, [] => .error (.unexpectedEnd block)
  | block, outer, line :: rest =>
    match line.role with
    | .opens inner => extent inner (block :: outer) rest
    | .closes closed =>
      if block = closed then
        match outer with
        | [] => .ok (line, rest)
        | around :: outer => extent around outer rest
      else .error (.unexpectedKeyword line.keyword)
    | .branch =>
      if block = .conditional then extent block outer rest
      else .error (.unexpectedKeyword line.keyword)
    | .simple => extent block outer rest

/-- The way to the end of an outer block leads through the end of the inner one. -/
theorem extent_append (block around : Block) (inside outside : List Block) (lines : List Line) :
    extent block (inside ++ around :: outside) lines =
      (extent block inside lines).bind fun (_, rest) => extent around outside rest := by
  induction lines generalizing block inside with
  | nil => rfl
  | cons line rest ih =>
    simp only [extent]
    split
    · exact ih _ (block :: inside)
    · split
      · cases inside with
        | nil => rfl
        | cons next inside => exact ih next inside
      · rfl
    · split
      · exact ih block inside
      · rfl
    · exact ih block inside

theorem extent_length (found : extent block outer lines = .ok (closing, rest)) :
    rest.length < lines.length := by
  induction lines generalizing block outer with
  | nil => simp [extent] at found
  | cons line lines ih =>
    have shorter {block : Block} {outer : List Block}
        (found : extent block outer lines = .ok (closing, rest)) :
        rest.length < (line :: lines).length :=
      Nat.lt_succ_of_lt (ih found)
    simp only [extent] at found
    split at found
    · exact shorter found
    · split at found
      · cases outer with
        | nil =>
          obtain ⟨rfl, rfl⟩ : line = closing ∧ lines = rest := by simpa using found
          exact Nat.lt_succ_self _
        | cons around outer => exact shorter found
      · cases found
    · split at found
      · exact shorter found
      · cases found
    · exact shorter found

/-- A block without an end is found out by a keyword out of place or by the end of the script. -/
theorem extent_error {cause} (failed : extent block outer lines = .error cause) :
    (∃ keyword, cause = .unexpectedKeyword keyword) ∨ ∃ open_, cause = .unexpectedEnd open_ := by
  induction lines generalizing block outer with
  | nil =>
    cases failed
    exact .inr ⟨block, rfl⟩
  | cons line lines ih =>
    simp only [extent] at failed
    split at failed
    · exact ih failed
    · split at failed
      · cases outer with
        | nil => cases failed
        | cons around outer => exact ih failed
      · cases failed
        exact .inl ⟨_, rfl⟩
    · split at failed
      · exact ih failed
      · cases failed
        exact .inl ⟨_, rfl⟩
    · exact ih failed

theorem Line.ofKeyword_eq (line : Line) :
    Role.ofKeyword (expandKeyword line.command) = line.role := rfl

theorem Role.ofKeyword_ne_opens_script (keyword : String) :
    Role.ofKeyword keyword ≠ .opens .script := by
  unfold Role.ofKeyword
  split <;> simp

theorem Line.opened_ne (role : line.role = .opens opened) : opened ≠ .script := by
  rintro rfl
  exact Role.ofKeyword_ne_opens_script _ role

/-! ### Walks that give a passage -/

section Walks

variable {host : Host σ} {engine : Engine σ} {mode : Mode} {session after : Session σ}
  {passage : Passage}
variable {act : Run σ Passage} {fuel : Nat}

theorem capturing_ok (done : capturing mode lines act session = .ok passage after) :
    ∃ inner, act session = .ok inner after ∧ passage.rest = inner.rest ∧
      passage.closing = inner.closing := by
  unfold capturing at done
  split at done
  · obtain ⟨inner, between, first, ⟨⟩⟩ := bind_eq_ok.mp done
    exact ⟨inner, first, rfl, rfl⟩
  · exact ⟨passage, done, rfl, rfl⟩

/-- What a walk that gives a passage does with its first statement: end there, go on, or go through
a block and on. -/
theorem walkWithin_cons_ok
    (done : walkWithin host engine (fuel + 1) block mode (line :: rest) session =
      .ok passage after) :
    (line.role = .closes block ∧ passage.rest = rest ∧ passage.closing = some line) ∨
      ((line.role = .simple ∨ line.role = .branch ∧ block = .conditional) ∧
        ∃ next between inner,
          walkWithin host engine fuel block next rest between = .ok inner after ∧
            passage.rest = inner.rest ∧ passage.closing = inner.closing) ∨
      ∃ opened innerMode between inside left started inner,
        line.role = .opens opened ∧
          walkWithin host engine fuel opened innerMode rest between = .ok inside left ∧
          walkWithin host engine fuel block mode inside.rest started = .ok inner after ∧
          passage.rest = inner.rest ∧ passage.closing = inner.closing := by
  simp only [walkWithin, walkLine] at done
  obtain ⟨_, _, _, done⟩ := bind_eq_ok.mp done
  cases role : Role.ofKeyword (expandKeyword line.command) with
  | closes closed =>
    simp only [role] at done
    split at done
    · rename_i same
      cases done
      exact .inl ⟨same ▸ role, rfl, rfl⟩
    · cases done
  | branch =>
    simp only [role] at done
    split at done
    · rename_i conditional
      obtain ⟨next, between, _, done⟩ := bind_eq_ok.mp done
      obtain ⟨inner, walked, same⟩ := capturing_ok done
      exact .inr (.inl ⟨.inr ⟨role, conditional⟩, next, between, inner, walked, same⟩)
    · cases done
  | simple =>
    simp only [role] at done
    refine .inr (.inl ⟨.inl role, mode, ?_⟩)
    split at done
    · obtain ⟨_, between, _, done⟩ := bind_eq_ok.mp done
      obtain ⟨inner, walked, same⟩ := capturing_ok done
      exact ⟨between, inner, walked, same⟩
    · obtain ⟨inner, walked, same⟩ := capturing_ok done
      exact ⟨_, inner, walked, same⟩
  | opens opened =>
    refine .inr (.inr ⟨opened, ?_⟩)
    simp only [role] at done
    cases mode with
    | execute =>
      cases opened with
      | conditional | whileLoop | forLoop =>
        obtain ⟨_, _, _, done⟩ := bind_eq_ok.mp done
        obtain ⟨inside, left, entered, walked⟩ := bind_eq_ok.mp done
        exact ⟨_, _, inside, left, left, passage, role, entered, walked, rfl, rfl⟩
      | function =>
        obtain ⟨_, _, _, done⟩ := bind_eq_ok.mp done
        obtain ⟨_, _, _, done⟩ := bind_eq_ok.mp done
        obtain ⟨inside, left, entered, done⟩ := bind_eq_ok.mp done
        obtain ⟨_, started, _, walked⟩ := bind_eq_ok.mp done
        exact ⟨_, _, inside, left, started, passage, role, entered, walked, rfl, rfl⟩
      | script => exact absurd role (Role.ofKeyword_ne_opens_script _)
    | capture =>
      simp only at done
      obtain ⟨inside, left, entered, done⟩ := bind_eq_ok.mp done
      obtain ⟨inner, walked, same⟩ := capturing_ok done
      exact ⟨_, _, inside, left, left, inner, role, entered, walked, same⟩
    | skip | skipToEnd =>
      simp only at done
      obtain ⟨inside, left, entered, walked⟩ := bind_eq_ok.mp done
      exact ⟨_, _, inside, left, left, passage, role, entered, walked, rfl, rfl⟩

/-- Whatever a walk through a block does on its way, it ends at the extent of the block. -/
theorem walkWithin_extent (enough : lines.length ≤ fuel) (block_ne : block ≠ .script)
    (done : walkWithin host engine fuel block mode lines session = .ok passage after) :
    ∃ closing, passage.closing = some closing ∧
      extent block [] lines = .ok (closing, passage.rest) := by
  induction fuel generalizing block mode lines session after passage with
  | zero =>
    obtain rfl : lines = [] := List.length_eq_zero_iff.mp (Nat.le_zero.mp enough)
    simp only [walkWithin, if_neg block_ne] at done
    cases done
  | succ fuel ih =>
    cases lines with
    | nil =>
      simp only [walkWithin, if_neg block_ne] at done
      cases done
    | cons line rest =>
      have rest_enough : rest.length ≤ fuel := Nat.le_of_succ_le_succ enough
      obtain ⟨role, same_rest, same_closing⟩ |
          ⟨role, _, _, inner, walked, same_rest, same_closing⟩ |
          ⟨opened, _, _, inside, _, _, inner, role, entered, walked, same_rest, same_closing⟩ :=
        walkWithin_cons_ok done
      · exact ⟨line, same_closing, by simp [extent, role, same_rest]⟩
      · obtain ⟨closing, closing_eq, found⟩ := ih rest_enough block_ne walked
        refine ⟨closing, same_closing.trans closing_eq, ?_⟩
        rw [same_rest, ← found]
        obtain role | ⟨role, conditional⟩ := role
        · simp [extent, role]
        · simp [extent, role, conditional]
      · obtain ⟨_, _, inside_found⟩ := ih rest_enough (Line.opened_ne role) entered
        have left_enough : inside.rest.length ≤ fuel :=
          Nat.le_trans (Nat.le_of_lt (extent_length inside_found)) rest_enough
        obtain ⟨closing, closing_eq, found⟩ := ih left_enough block_ne walked
        refine ⟨closing, same_closing.trans closing_eq, ?_⟩
        rw [same_rest, ← found]
        simp only [extent, role]
        rw [show [block] = [] ++ block :: [] from rfl, extent_append, inside_found]
        rfl

/-! ### Walks that execute nothing -/

/-- The mode takes a walk through the block without executing any of it. -/
def Mode.PassesBy (mode : Mode) (block : Block) : Prop :=
  mode = .capture ∨ mode = .skipToEnd ∨ mode = .skip ∧ block ≠ .conditional

/-- What a walk in some mode keeps of the statements that it has passed. -/
def Mode.kept (mode : Mode) (passed : List Line) : List Line :=
  if mode = .capture then passed else []

/-- A walk through statements with this extent does nothing but spend time, a unit on each statement
that it passes. -/
def PassedBy (mode : Mode) (lines : List Line) (walk : Run σ Passage) :
    Except Fault (Line × List Line) → Prop
  | .ok (closing, rest) =>
    ∃ passed, lines = passed ++ closing :: rest ∧
      walk = (do
        spend (passed.length + 1)
        return ⟨rest, mode.kept passed, some closing⟩)
  | .error cause =>
    ∃ passed rest, lines = passed ++ rest ∧
      walk = (do
        spend passed.length
        fault cause)

theorem capturing_spend (added : List Line) (count : Nat) (passage : Passage) :
    (capturing mode added (do spend count; return passage) : Run σ Passage) = (do
      spend count
      return { passage with captured := mode.kept added ++ passage.captured }) := by
  unfold capturing Mode.kept
  split
  · simp
  · rfl

theorem capturing_fault (added : List Line) (count : Nat) (cause : Fault) :
    (capturing mode added (do spend count; fault cause) : Run σ Passage) = (do
      spend count
      fault cause) := by
  unfold capturing
  split
  · rw [bind_assoc]
    rfl
  · rfl

theorem Mode.kept_append (mode : Mode) (first second : List Line) :
    mode.kept (first ++ second) = mode.kept first ++ mode.kept second := by
  unfold kept
  split <;> rfl

/-- A walk goes on after it has spent as much time as it has passed statements. -/
theorem PassedBy.capturing {walk : Run σ Passage} {found : Except Fault (Line × List Line)}
    (later : PassedBy mode rest walk found) (added : List Line) :
    PassedBy mode (added ++ rest) (do
      spend added.length
      capturing mode added walk) found := by
  cases found with
  | ok place =>
    obtain ⟨passed, rfl, rfl⟩ := later
    refine ⟨added ++ passed, by simp, ?_⟩
    rw [capturing_spend, ← bind_assoc, ← spend_add, mode.kept_append, List.length_append,
      Nat.add_assoc]
  | error cause =>
    obtain ⟨passed, rest, rfl, rfl⟩ := later
    refine ⟨added ++ passed, rest, by simp, ?_⟩
    rw [capturing_fault, ← bind_assoc, ← spend_add, List.length_append]

theorem capturing_of_ne (mode_ne : mode ≠ .capture) :
    capturing mode lines act = act := if_neg mode_ne

theorem nextBranch_of_passesBy (keyword : String) (passes : mode.PassesBy .conditional) :
    nextBranch engine keyword line mode = pure mode := by
  obtain rfl | rfl | ⟨_, absurd⟩ := passes
  · rfl
  · rfl
  · exact (absurd rfl).elim

/-- The mode in which a walk that passes by goes through a block inside of the block. -/
def Mode.inside (mode : Mode) (block : Block) : Mode :=
  if mode = .capture then .capture else if block = .conditional then .skipToEnd else .skip

theorem Mode.inside_passesBy (mode : Mode) (block : Block) :
    (mode.inside block).PassesBy block := by
  unfold inside
  split
  · exact .inl rfl
  · split
    · exact .inr (.inl rfl)
    · exact .inr (.inr ⟨rfl, ‹_›⟩)

theorem capturing_inside {passed} :
    capturing mode (line :: (mode.inside opened).kept passed ++ [closing]) act =
      capturing mode (line :: passed ++ [closing]) act := by
  by_cases captures : mode = .capture
  · simp [captures, Mode.inside, Mode.kept]
  · rw [capturing_of_ne captures, capturing_of_ne captures]

/-- A walk that passes by goes through a block inside of the block and then on. -/
theorem walkWithin_opens (passes : mode.PassesBy block) (role : line.role = .opens opened) :
    walkWithin host engine (fuel + 1) block mode (line :: rest) = (do
      checkPatience
      let passage ← walkWithin host engine fuel opened (mode.inside opened) rest
      capturing mode (line :: passage.captured ++ passage.closing.toList)
        (walkWithin host engine fuel block mode passage.rest)) := by
  simp only [walkWithin, walkLine, Line.ofKeyword_eq, role]
  cases mode with
  | capture | skipToEnd | skip => rfl
  | execute => obtain absurd | absurd | ⟨absurd, _⟩ := passes <;> cases absurd

/-- A walk that executes nothing spends time and does nothing else. -/
theorem walkWithin_passedBy (enough : lines.length ≤ fuel) (block_ne : block ≠ .script)
    (passes : mode.PassesBy block) :
    PassedBy mode lines (walkWithin host engine fuel block mode lines) (extent block [] lines) := by
  induction fuel generalizing block mode lines with
  | zero =>
    obtain rfl : lines = [] := List.length_eq_zero_iff.mp (Nat.le_zero.mp enough)
    simp only [walkWithin, if_neg block_ne]
    exact ⟨[], [], rfl, rfl⟩
  | succ fuel ih =>
    cases lines with
    | nil =>
      simp only [walkWithin, if_neg block_ne]
      exact ⟨[], [], rfl, rfl⟩
    | cons line rest =>
      have rest_enough : rest.length ≤ fuel := Nat.le_of_succ_le_succ enough
      have onward : PassedBy mode (line :: rest) (do
          checkPatience
          capturing mode [line] (walkWithin host engine fuel block mode rest))
          (extent block [] rest) := by
        rw [← spend_one]
        exact (ih rest_enough block_ne passes).capturing [line]
      cases role : line.role with
      | closes closed =>
        simp only [walkWithin, walkLine, Line.ofKeyword_eq, role, extent]
        split
        · exact ⟨[], rfl, by simp [spend_one, Mode.kept]⟩
        · exact ⟨[line], rest, rfl, by simp [spend_one, Line.keyword]⟩
      | branch =>
        simp only [walkWithin, walkLine, Line.ofKeyword_eq, role, extent]
        split
        · rename_i conditional
          subst conditional
          rw [nextBranch_of_passesBy _ passes, pure_bind]
          exact onward
        · exact ⟨[line], rest, rfl, by simp [spend_one, Line.keyword]⟩
      | simple =>
        have mode_ne : mode ≠ .execute := by
          rintro rfl
          obtain absurd | absurd | ⟨absurd, _⟩ := passes <;> cases absurd
        simp only [walkWithin, walkLine, Line.ofKeyword_eq, role, extent, if_neg mode_ne]
        exact onward
      | opens opened =>
        have inside := ih rest_enough (Line.opened_ne role) (mode.inside_passesBy opened)
        rw [walkWithin_opens passes role]
        simp only [extent, role]
        rw [show [block] = [] ++ block :: [] from rfl, extent_append]
        cases found : extent opened [] rest with
        | error cause =>
          rw [found] at inside
          obtain ⟨passed, left, rfl, walked⟩ := inside
          refine ⟨line :: passed, left, rfl, ?_⟩
          rw [walked, bind_assoc, List.length_cons, spend, bind_assoc]
          rfl
        | ok place =>
          obtain ⟨closing, after⟩ := place
          rw [found] at inside
          obtain ⟨passed, rfl, walked⟩ := inside
          have after_enough : after.length ≤ fuel := by
            simp at rest_enough
            omega
          have later := (ih after_enough block_ne passes).capturing
            (line :: passed ++ [closing])
          rw [List.append_assoc, List.singleton_append] at later
          change PassedBy mode _ _ (extent block [] after)
          rw [walked, bind_assoc]
          simp only [pure_bind, Option.toList_some]
          rw [capturing_inside, ← bind_assoc, ← spend_one, ← spend_add]
          simpa [Nat.add_comm, Nat.add_left_comm] using later

end Walks

/-- The extent of a block does not depend on how it is traversed. A walk that skips or captures
comes to the statement that closes the block, or to the fault that `extent` finds, and only spends
time. Whenever a walk in any mode gives a passage, it has come to the same place. -/
theorem walk_extent (host : Host σ) (engine : Engine σ) (block : Block) (block_ne : block ≠ .script)
    (lines : List Line) (mode : Mode) :
    (mode.PassesBy block →
      PassedBy mode lines (walk host engine block mode lines) (extent block [] lines)) ∧
      (∀ cause, extent block [] lines = .error cause →
        (∃ keyword, cause = .unexpectedKeyword keyword) ∨
          ∃ unclosed, cause = .unexpectedEnd unclosed) ∧
      ∀ session passage after, walk host engine block mode lines session = .ok passage after →
        ∃ closing, passage.closing = some closing ∧
          extent block [] lines = .ok (closing, passage.rest) := by
  refine ⟨fun passes => ?_, fun cause => extent_error, fun session passage after => ?_⟩
  · exact walkWithin_passedBy (Nat.le_refl _) block_ne passes
  · exact walkWithin_extent (Nat.le_refl _) block_ne

/-- A loop with a conditional and another loop inside of it ends at the sixth statement, and it
takes six units of time to skip it. -/
theorem walk_extent_nested :
    let line (command : String) : Line := ⟨.current, command, false, "1", 1⟩
    let lines := ["if", "while", "endwhile", "else", "endif", "endwhile", "echo"].map line
    Block.whileLoop ≠ .script ∧
      extent .whileLoop [] lines = .ok (line "endwhile", [line "echo"]) ∧
      walk Recorder.host (engine Recorder.host) .whileLoop .skip lines = (do
        spend 6
        return ⟨[line "echo"], [], some (line "endwhile")⟩) := by
  intro line lines
  have found : extent .whileLoop [] lines = .ok (line "endwhile", [line "echo"]) := rfl
  refine ⟨by decide, found, ?_⟩
  have passed := (walk_extent Recorder.host (engine Recorder.host) .whileLoop (by decide) lines
    .skip).1 (.inr (.inr ⟨rfl, by decide⟩))
  rw [found] at passed
  obtain ⟨passed, split, walked⟩ := passed
  have length_eq : passed.length = 5 := by
    have := congrArg List.length split
    simp [lines] at this
    omega
  rw [walked, length_eq]
  rfl

end Vimlet
