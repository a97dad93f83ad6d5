import Vimlet.Proofs.Statement.Extent

/-!
# Structured scripts

A structured script is a tree of simple statements, conditionals, loops and function definitions. To
walk through its list of statements is the same as to execute the tree.
-/

namespace Vimlet

open Run List

variable {σ : Type}
variable {host : Host σ} {engine : Engine σ} {closing head : Line} {fuel : Nat} {mode : Mode}
  {α : Type} {opened : Block} {inside : List Line}

/-! ### Walks without fuel -/

section Walks

theorem walkWithin_congr {other block lines} (enough : lines.length ≤ fuel)
    (other_enough : lines.length ≤ other) :
    walkWithin host engine fuel block mode lines =
      walkWithin host engine other block mode lines := by
  induction fuel generalizing other block mode lines with
  | zero =>
    obtain rfl : lines = [] := length_eq_zero_iff.mp (Nat.le_zero.mp enough)
    simp only [walkWithin]
  | succ fuel ih =>
    cases lines with
    | nil => simp only [walkWithin]
    | cons line rest =>
      obtain ⟨other, rfl⟩ := Nat.exists_eq_succ_of_ne_zero (Nat.ne_zero_of_lt other_enough)
      have rest_enough : rest.length ≤ fuel := Nat.le_of_succ_le_succ enough
      have rest_other : rest.length ≤ other := Nat.le_of_succ_le_succ other_enough
      have same (block : Block) (mode : Mode) :
          walkWithin host engine fuel block mode rest =
            walkWithin host engine other block mode rest := ih rest_enough rest_other
      have later {opened : Block} (role : line.role = .opens opened) {inner : Mode}
          {before after : Session σ} {passage : Passage}
          (entered : walkWithin host engine other opened inner rest before =
            .ok passage after) :
          walkWithin host engine fuel block mode passage.rest =
            walkWithin host engine other block mode passage.rest := by
        obtain ⟨_, _, found⟩ := walkWithin_extent rest_other (Line.opened_ne role) entered
        have shorter := extent_length found
        exact ih (by omega) (by omega)
      funext session
      simp only [walkWithin, walkLine, same]
      refine bind_congr_ok fun _ ready _ => ?_
      cases role : Role.ofKeyword (expandKeyword line.command) with
      | closes closed => rfl
      | branch => rfl
      | simple => rfl
      | opens opened =>
        simp only
        cases mode with
        | execute =>
          cases opened with
          | conditional | whileLoop | forLoop =>
            refine bind_congr_ok fun _ between _ => ?_
            exact bind_congr_ok fun _ _ entered => by rw [later role entered]
          | function =>
            refine bind_congr_ok fun _ between _ => ?_
            refine bind_congr_ok fun _ between _ => ?_
            refine bind_congr_ok fun passage _ entered => ?_
            refine bind_congr_ok fun _ _ _ => ?_
            rw [pure_bind, pure_bind, later role entered]
          | script => exact absurd role (Role.ofKeyword_ne_opens_script _)
        | capture =>
          exact bind_congr_ok fun _ _ entered => by rw [later role entered]
        | skip | skipToEnd => exact bind_congr_ok fun _ _ entered => by rw [later role entered]

theorem Run.discard_eq (act : Run σ α) : discard act = (do let _ ← act) := rfl

/-- Any fuel that is enough gives the same walk. -/
theorem walkWithin_eq_walk {block lines} (enough : lines.length ≤ fuel) :
    walkWithin host engine fuel block mode lines = walk host engine block mode lines :=
  walkWithin_congr enough (Nat.le_refl _)

/-- After a walk through a block there are no more statements left than before it. -/
theorem walk_bind_congr {inner rest} {next other : Passage → Run σ α} (opened_ne : opened ≠ .script)
    (same : ∀ passage : Passage, passage.rest.length ≤ rest.length → next passage = other passage) :
    (walk host engine opened inner rest >>= next) =
      (walk host engine opened inner rest >>= other) := by
  funext session
  refine bind_congr_ok fun passage after entered => ?_
  obtain ⟨_, _, found⟩ := walkWithin_extent (Nat.le_refl _) opened_ne entered
  rw [same passage (Nat.le_of_lt (extent_length found))]

section Equations

variable {block : Block} {line : Line} (rest : List Line)

theorem walk_closes (mode : Mode) (role : line.role = .closes block) :
    walk host engine block mode (line :: rest) = (do
      checkPatience
      return { rest, closing := some line }) := by
  simp only [walk, length_cons, walkWithin, walkLine, Line.ofKeyword_eq, role, if_pos]

theorem walk_branch (mode_ne : mode ≠ .capture) (role : line.role = .branch) :
    walk host engine .conditional mode (line :: rest) = (do
      checkPatience
      let next ← nextBranch engine line.keyword line mode
      walk host engine .conditional next rest) := by
  simp only [walk, length_cons, walkWithin, walkLine, Line.ofKeyword_eq, role, if_pos,
    capturing_of_ne mode_ne, Line.keyword]

theorem walk_simple (role : line.role = .simple) :
    walk host engine block .execute (line :: rest) = (do
      checkPatience
      executeSimple host engine line.keyword line
      walk host engine block .execute rest) := by
  simp only [walk, length_cons, walkWithin, walkLine, Line.ofKeyword_eq, role, if_pos, Line.keyword]
  rfl

theorem walk_conditional (role : line.role = .opens .conditional) :
    walk host engine block .execute (line :: rest) = (do
      checkPatience
      let taken ← condition engine line
      let passage ← walk host engine .conditional (if taken then .execute else .skip) rest
      walk host engine block .execute passage.rest) := by
  rw [walk, length_cons]
  simp only [walkWithin, walkLine, Line.ofKeyword_eq, role]
  refine bind_congr fun _ => bind_congr fun taken => ?_
  exact walk_bind_congr (by simp) fun passage shorter => walkWithin_eq_walk shorter

theorem walk_whileLoop (role : line.role = .opens .whileLoop) :
    walk host engine block .execute (line :: rest) = (do
      checkPatience
      runWhile engine line (discard (walk host engine .whileLoop .execute rest))
      let passage ← walk host engine .whileLoop .skip rest
      walk host engine block .execute passage.rest) := by
  rw [walk, length_cons]
  simp only [walkWithin, walkLine, Line.ofKeyword_eq, role]
  refine bind_congr fun _ => bind_congr fun _ => ?_
  exact walk_bind_congr (by simp) fun passage shorter => walkWithin_eq_walk shorter

theorem walk_forLoop (role : line.role = .opens .forLoop) :
    walk host engine block .execute (line :: rest) = (do
      checkPatience
      runFor engine line (discard (walk host engine .forLoop .execute rest))
      let passage ← walk host engine .forLoop .skip rest
      walk host engine block .execute passage.rest) := by
  rw [walk, length_cons]
  simp only [walkWithin, walkLine, Line.ofKeyword_eq, role]
  refine bind_congr fun _ => bind_congr fun _ => ?_
  exact walk_bind_congr (by simp) fun passage shorter => walkWithin_eq_walk shorter

theorem walk_function (role : line.role = .opens .function) :
    walk host engine block .execute (line :: rest) = (do
      checkPatience
      setLine line
      let header ← ofExcept (FunctionHeader.parse line.params)
      let passage ← walk host engine .function .capture rest
      defineFunction header passage.captured
      walk host engine block .execute passage.rest) := by
  rw [walk, length_cons]
  simp only [walkWithin, walkLine, Line.ofKeyword_eq, role]
  refine bind_congr fun _ => bind_congr fun _ => bind_congr fun header => ?_
  refine walk_bind_congr (by simp) fun passage shorter => ?_
  simp only [pure_bind, walkWithin_eq_walk shorter]

theorem walk_skip_simple (role : line.role = .simple) :
    walk host engine block .skip (line :: rest) = (do
      checkPatience
      walk host engine block .skip rest) := by
  simp only [walk, length_cons, walkWithin, walkLine, Line.ofKeyword_eq, role]
  rfl

theorem walk_skip_opens (role : line.role = .opens opened) :
    walk host engine block .skip (line :: rest) = (do
      checkPatience
      let passage ← walk host engine opened (Mode.skip.inside opened) rest
      walk host engine block .skip passage.rest) := by
  rw [walk, length_cons]
  simp only [walkWithin, walkLine, Line.ofKeyword_eq, role]
  refine bind_congr fun _ => ?_
  exact walk_bind_congr (Line.opened_ne role) fun passage shorter => walkWithin_eq_walk shorter

end Equations

theorem walk_of_extent {block rest} (block_ne : block ≠ .script) (passes : mode.PassesBy block)
    (found : extent block [] (inside ++ closing :: rest) = .ok (closing, rest)) :
    walk host engine block mode (inside ++ closing :: rest) = (do
      spend (inside.length + 1)
      return ⟨rest, mode.kept inside, some closing⟩) := by
  have passed : PassedBy mode (inside ++ closing :: rest)
      (walk host engine block mode (inside ++ closing :: rest)) _ :=
    walkWithin_passedBy (Nat.le_refl _) block_ne passes
  rw [found] at passed
  obtain ⟨passed, split, walked⟩ := passed
  obtain rfl : inside = passed := append_cancel_right split
  exact walked

end Walks

/-! ### Structured scripts -/

abbrev KeywordLine (keyword : String) := { line : Line // line.keyword = keyword }

theorem KeywordLine.role_eq {keyword} (line : KeywordLine keyword) :
    line.val.role = Role.ofKeyword keyword := by
  rw [Line.role, line.property]

/-- The parts of a structured script. -/
inductive Part where
  /-- Statements one after the other. -/
  | body
  /-- The other branches of a conditional, after the first one. -/
  | branches

/-- A script as a tree. -/
inductive Script : Part → Type where
  | done : Script .body
  | simple (line : { line : Line // line.role = .simple }) (next : Script .body) : Script .body
  | conditional (head : KeywordLine "if") (first : Script .body) (others : Script .branches)
      (closing : KeywordLine "endif") (next : Script .body) : Script .body
  | whileLoop (head : KeywordLine "while") (body : Script .body)
      (closing : KeywordLine "endwhile") (next : Script .body) : Script .body
  | forLoop (head : KeywordLine "for") (body : Script .body)
      (closing : KeywordLine "endfor") (next : Script .body) : Script .body
  | function (head : KeywordLine "function") (body : Script .body)
      (closing : KeywordLine "endfunction") (next : Script .body) : Script .body
  | noBranch : Script .branches
  | otherwise (head : KeywordLine "else") (body : Script .body) : Script .branches
  | elseIf (head : KeywordLine "elseif") (body : Script .body) (others : Script .branches) :
      Script .branches

variable {part : Part}

namespace Script

/-- The statements of a script, as they are written. -/
def lines : {part : Part} → Script part → List Line
  | _, done => []
  | _, simple line next => line.val :: next.lines
  | _, conditional head first others closing next =>
    head.val :: (first.lines ++ others.lines) ++ closing.val :: next.lines
  | _, whileLoop head body closing next => head.val :: body.lines ++ closing.val :: next.lines
  | _, forLoop head body closing next => head.val :: body.lines ++ closing.val :: next.lines
  | _, function head body closing next => head.val :: body.lines ++ closing.val :: next.lines
  | _, noBranch => []
  | _, otherwise head body => head.val :: body.lines
  | _, elseIf head body others => head.val :: (body.lines ++ others.lines)

end Script

/-- Statements inside of a block that do not end it. -/
def Inside (block : Block) (inside : List Line) : Prop :=
  ∀ outer rest, extent block outer (inside ++ rest) = extent block outer rest

theorem Inside.append {block first second} (first_inside : Inside block first)
    (second_inside : Inside block second) : Inside block (first ++ second) := fun outer rest => by
  rw [append_assoc, first_inside, second_inside]

theorem Inside.extent_eq {block} (is_inside : Inside block inside)
    (role : closing.role = .closes block) (rest : List Line) :
    extent block [] (inside ++ closing :: rest) = .ok (closing, rest) := by
  rw [is_inside]
  simp only [extent, role, if_pos]

theorem Inside.block {block next} (opens : head.role = .opens opened)
    (is_inside : Inside opened inside) (closes : closing.role = .closes opened)
    (next_inside : Inside block next) :
    Inside block (head :: inside ++ closing :: next) := fun outer rest => by
  simp only [cons_append, append_assoc, extent, opens]
  rw [is_inside]
  simp only [extent, closes, if_pos]
  exact next_inside outer rest

/-- The blocks that a part of a script can stand in. -/
def Part.Fits : Part → Block → Prop
  | .body, _ => True
  | .branches, block => block = .conditional

namespace Script

/-- A block does not end inside of a structured part of it. -/
theorem lines_inside (script : Script part) {block} (fits : part.Fits block) :
    Inside block script.lines := by
  induction script generalizing block with
  | done => exact fun outer rest => rfl
  | simple line next ih =>
    intro outer rest
    simp only [lines, cons_append, extent, line.property]
    exact ih trivial outer rest
  | conditional head first others closing next first_ih others_ih next_ih =>
    exact .block head.role_eq ((first_ih trivial).append (others_ih rfl)) closing.role_eq
      (next_ih trivial)
  | whileLoop head body closing next body_ih next_ih
  | forLoop head body closing next body_ih next_ih
  | function head body closing next body_ih next_ih =>
    exact .block head.role_eq (body_ih trivial) closing.role_eq (next_ih trivial)
  | noBranch => exact fun outer rest => rfl
  | otherwise head body ih =>
    obtain rfl : block = .conditional := fits
    intro outer rest
    simp only [lines, cons_append, extent, head.role_eq, Role.ofKeyword, if_pos]
    exact ih trivial outer rest
  | elseIf head body others body_ih others_ih =>
    obtain rfl : block = .conditional := fits
    intro outer rest
    simp only [lines, cons_append, extent, head.role_eq, Role.ofKeyword, if_pos]
    exact (body_ih trivial).append (others_ih rfl) outer rest

end Script

/-! ### Execution of the tree -/

/-- Takes one of two ways, depending on the condition of a statement. -/
def branch (engine : Engine σ) (line : Line) (yes no : Run σ Unit) : Run σ Unit := do
  let taken ← condition engine line
  if taken then yes else no

namespace Script

/-- Executes a structured script. Time is spent on each statement that is executed or passed by, and
on each end of a block. -/
def execute (host : Host σ) (engine : Engine σ) : {part : Part} → Script part → Run σ Unit
  | _, done => pure ()
  | _, simple line next => do
    checkPatience
    executeSimple host engine line.val.keyword line
    next.execute host engine
  | _, conditional head first others _ next => do
    checkPatience
    branch engine head
      (do first.execute host engine; spend (others.lines.length + 1))
      (do spend first.lines.length; others.execute host engine)
    next.execute host engine
  | _, whileLoop head body _ next => do
    checkPatience
    runWhile engine head (do body.execute host engine; checkPatience)
    spend (body.lines.length + 1)
    next.execute host engine
  | _, forLoop head body _ next => do
    checkPatience
    runFor engine head (do body.execute host engine; checkPatience)
    spend (body.lines.length + 1)
    next.execute host engine
  | _, function head body _ next => do
    checkPatience
    setLine head
    let header ← ofExcept (FunctionHeader.parse head.val.params)
    spend (body.lines.length + 1)
    defineFunction header body.lines
    next.execute host engine
  | _, noBranch => checkPatience
  | _, otherwise _ body => do
    checkPatience
    body.execute host engine
    checkPatience
  | _, elseIf head body others => do
    checkPatience
    branch engine head
      (do body.execute host engine; spend (others.lines.length + 1))
      (do spend body.lines.length; others.execute host engine)

section Walks

/-- After a taken branch the others are passed by. -/
theorem walk_others (others : Script .branches) (closes : closing.role = .closes .conditional)
    (rest : List Line) :
    walk host engine .conditional .execute (others.lines ++ closing :: rest) = (do
      spend (others.lines.length + 1)
      return ⟨rest, [], some closing⟩) := by
  have passed {head : Line} {inside : List Line} (role : head.role = .branch)
      (is_inside : Inside .conditional inside) :
      walk host engine .conditional .execute (head :: inside ++ closing :: rest) = (do
        spend ((head :: inside).length + 1)
        return ⟨rest, [], some closing⟩) := by
    rw [cons_append, walk_branch _ (by simp) role]
    simp only [nextBranch, pure_bind]
    rw [walk_of_extent (by simp) (.inr (.inl rfl)) (is_inside.extent_eq closes rest),
      ← bind_assoc, ← spend_one, ← spend_add, length_cons, Nat.add_comm 1]
    rfl
  cases others with
  | noBranch =>
    rw [lines, nil_append, walk_closes _ _ closes, ← spend_one]
    rfl
  | otherwise head body => exact passed head.role_eq (body.lines_inside trivial)
  | elseIf head body others =>
    exact passed head.role_eq ((body.lines_inside trivial).append (others.lines_inside rfl))

theorem walk_skip_block (opens : head.role = .opens opened) (is_inside : Inside opened inside)
    (closes : closing.role = .closes opened) (rest : List Line) :
    walk host engine .conditional .skip (head :: inside ++ closing :: rest) = (do
      spend (inside.length + 2)
      walk host engine .conditional .skip rest) := by
  rw [cons_append, walk_skip_opens _ opens, walk_of_extent (Line.opened_ne opens)
    (Mode.skip.inside_passesBy opened) (is_inside.extent_eq closes rest), bind_assoc, ← bind_assoc,
    ← spend_one, ← spend_add, Nat.add_comm 1]
  simp only [pure_bind]

/-- A branch that is not taken is passed by up to the next one. -/
theorem walk_skip (script : Script part) (is_body : part = .body) (rest : List Line) :
    walk host engine .conditional .skip (script.lines ++ rest) = (do
      spend script.lines.length
      walk host engine .conditional .skip rest) := by
  have passed {opened : Block} {head closing : Line} {inside next : List Line}
      (opens : head.role = .opens opened) (is_inside : Inside opened inside)
      (closes : closing.role = .closes opened)
      (later : walk host engine .conditional .skip (next ++ rest) = (do
        spend next.length
        walk host engine .conditional .skip rest)) :
      walk host engine .conditional .skip ((head :: inside ++ closing :: next) ++ rest) = (do
        spend (head :: inside ++ closing :: next).length
        walk host engine .conditional .skip rest) := by
    have split : (head :: inside ++ closing :: next) ++ rest =
        head :: inside ++ closing :: (next ++ rest) := by simp
    rw [split, walk_skip_block opens is_inside closes, later, ← bind_assoc, ← spend_add]
    congr 2
    simp
    omega
  induction script with
  | done => simp [lines, spend]
  | simple line next ih =>
    rw [lines, cons_append, walk_skip_simple _ line.property, ih rfl, ← bind_assoc]
    rfl
  | conditional head first others closing next first_ih others_ih next_ih =>
    exact passed head.role_eq ((first.lines_inside trivial).append (others.lines_inside rfl))
      closing.role_eq (next_ih rfl)
  | whileLoop head body closing next body_ih next_ih
  | forLoop head body closing next body_ih next_ih
  | function head body closing next body_ih next_ih =>
    exact passed head.role_eq (body.lines_inside trivial) closing.role_eq (next_ih rfl)
  | noBranch | otherwise | elseIf => cases is_body

variable (host engine) in
/-- The walk through a part of a script is the execution of the part. -/
def IsWalked : {part : Part} → Script part → Prop
  | .body, script => ∀ block rest,
      walk host engine block .execute (script.lines ++ rest) = (do
        script.execute host engine
        walk host engine block .execute rest)
  | .branches, script => ∀ closing rest, closing.role = .closes .conditional →
      walk host engine .conditional .skip (script.lines ++ closing :: rest) = (do
        script.execute host engine
        return ⟨rest, [], some closing⟩)

theorem walk_choice {first : Script .body} {others : Script .branches}
    (first_walked : first.IsWalked host engine) (others_walked : others.IsWalked host engine)
    (closes : closing.role = .closes .conditional) (taken : Bool) (rest : List Line) :
    walk host engine .conditional (if taken then .execute else .skip)
        (first.lines ++ others.lines ++ closing :: rest) =
      (if taken then (do first.execute host engine; spend (others.lines.length + 1))
        else (do spend first.lines.length; others.execute host engine)) >>= fun _ =>
      return ⟨rest, [], some closing⟩ := by
  rw [append_assoc]
  cases taken with
  | true =>
    simp only [if_pos, bind_assoc]
    rw [first_walked .conditional, walk_others others closes]
  | false =>
    simp only [Bool.false_eq_true, if_false, bind_assoc]
    rw [walk_skip first rfl, others_walked closing rest closes]

theorem walk_loopBody {body : Script .body} (walked : body.IsWalked host engine) {block}
    (closes : closing.role = .closes block) (rest : List Line) :
    discard (walk host engine block .execute (body.lines ++ closing :: rest)) = (do
      body.execute host engine
      checkPatience) := by
  rw [walked block, walk_closes _ _ closes, discard_eq]
  simp only [bind_assoc, pure_bind, bind_pure_unit]

theorem nextBranch_elseIf (line : Line) :
    nextBranch engine "elseif" line .skip = (do
      let taken ← condition engine line
      return if taken then .execute else .skip) := by
  unfold nextBranch
  simp only [show ("elseif" == "else") = false by decide, Bool.false_eq_true, if_false]
  refine bind_congr fun taken => ?_
  cases taken <;> rfl

theorem isWalked (script : Script part) : script.IsWalked host engine := by
  induction script with
  | done =>
    intro block rest
    simp [lines, execute]
  | simple line next ih =>
    intro block rest
    rw [lines, cons_append, walk_simple _ line.property, ih block rest]
    simp [execute]
  | conditional head first others closing next first_ih others_ih next_ih =>
    intro block rest
    rw [lines, append_assoc, cons_append, walk_conditional _ head.role_eq]
    simp only [cons_append, walk_choice first_ih others_ih closing.role_eq, bind_assoc,
      pure_bind, next_ih block rest, execute, branch]
  | whileLoop head body closing next body_ih next_ih
  | forLoop head body closing next body_ih next_ih =>
    intro block rest
    rw [lines, append_assoc, cons_append]
    first | rw [walk_whileLoop _ head.role_eq] | rw [walk_forLoop _ head.role_eq]
    rw [cons_append, walk_loopBody body_ih closing.role_eq, walk_of_extent (by simp)
      (.inr (.inr ⟨rfl, by simp⟩)) ((body.lines_inside trivial).extent_eq closing.role_eq _)]
    simp only [bind_assoc, pure_bind, next_ih block rest, execute]
  | function head body closing next body_ih next_ih =>
    intro block rest
    rw [lines, append_assoc, cons_append, walk_function _ head.role_eq]
    rw [cons_append, walk_of_extent (by simp) (.inl rfl)
      ((body.lines_inside trivial).extent_eq closing.role_eq _)]
    simp only [bind_assoc, pure_bind, next_ih block rest, execute, Mode.kept, if_pos]
  | noBranch =>
    intro closing rest closes
    rw [lines, nil_append, walk_closes _ _ closes]
    rfl
  | otherwise head body ih =>
    intro closing rest closes
    rw [lines, cons_append, walk_branch _ (by simp) head.role_eq, head.property,
      show nextBranch engine "else" head.val .skip = pure .execute from rfl, pure_bind,
      ih .conditional, walk_closes _ _ closes]
    simp only [bind_assoc, execute]
  | elseIf head body others body_ih others_ih =>
    intro closing rest closes
    rw [lines, cons_append, walk_branch _ (by simp) head.role_eq, head.property, nextBranch_elseIf]
    simp only [walk_choice body_ih others_ih closes, bind_assoc, pure_bind, execute, branch]

/-- To run the statements of a script is to execute its tree. -/
theorem runLines_lines (script : Script .body) :
    runLines host engine script.lines = script.execute host engine := by
  have walked : walk host engine .script .execute (script.lines ++ []) = _ :=
    script.isWalked .script []
  rw [append_nil] at walked
  rw [runLines, walked, discard_eq, bind_assoc]
  exact bind_pure_unit

end Walks

end Script

end Vimlet
