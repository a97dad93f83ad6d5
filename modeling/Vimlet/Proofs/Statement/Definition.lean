import Vimlet.Proofs.Interpreter.Layer
import Vimlet.Proofs.Namespace.Location
import Vimlet.Proofs.Statement.Structure

/-!
# Function definitions

A `function` statement makes the statements up to its matching end the body of a function. It binds
the function and nothing else, with none of the statements executed, or it fails and changes no
binding at all.
-/

namespace Vimlet

open Run FunctionHeader

variable {σ : Type}

/-! ### Matching ends -/

/-- Statements inside of a block: blocks that open are closed, and there are branches only in a
conditional. -/
inductive Balanced : Block → List Line → Prop where
  | done (block : Block) : Balanced block []
  | simple {block line next} (role : line.role = .simple) :
      Balanced block next → Balanced block (line :: next)
  | branch {line next} (role : line.role = .branch) :
      Balanced .conditional next → Balanced .conditional (line :: next)
  | block {block opened head closing inside next}
      (opens : head.role = .opens opened) (closes : closing.role = .closes opened) :
      Balanced opened inside → Balanced block next →
        Balanced block (head :: inside ++ closing :: next)

/-- The first statements of a list are inside of a block, the next one closes it, and the others
come after it. -/
structure ClosedBy (block : Block) (lines inside : List Line) (closing : Line) (after : List Line) :
    Prop where
  lines_eq : lines = inside ++ closing :: after
  balanced : Balanced block inside
  closes : closing.role = .closes block

variable {block : Block} {closing : Line}

theorem Balanced.is_inside {inside} (balanced : Balanced block inside) : Inside block inside := by
  induction balanced with
  | done => exact fun outer rest => rfl
  | simple role _ ih =>
    intro outer rest
    simp only [List.cons_append, extent, role]
    exact ih outer rest
  | branch role _ ih =>
    intro outer rest
    simp only [List.cons_append, extent, role, if_pos]
    exact ih outer rest
  | block opens closes _ _ inside_ih next_ih => exact .block opens inside_ih closes next_ih

/-- A block is closed by the statement that `extent` finds. -/
theorem closedBy_of_extent {block lines after closing}
    (found : extent block [] lines = .ok (closing, after)) :
    ∃ inside, ClosedBy block lines inside closing after := by
  match lines with
  | [] => cases found
  | line :: rest =>
    cases role : line.role with
    | simple =>
      simp only [extent, role] at found
      obtain ⟨inside, rfl, balanced, closes⟩ := closedBy_of_extent found
      exact ⟨line :: inside, rfl, .simple role balanced, closes⟩
    | branch =>
      simp only [extent, role] at found
      split at found
      · rename_i conditional
        subst conditional
        obtain ⟨inside, rfl, balanced, closes⟩ := closedBy_of_extent found
        exact ⟨line :: inside, rfl, .branch role balanced, closes⟩
      · cases found
    | closes closed =>
      simp only [extent, role] at found
      split at found
      · rename_i same
        cases found
        exact ⟨[], rfl, .done block, same ▸ role⟩
      · cases found
    | opens opened =>
      simp only [extent, role] at found
      rw [show [block] = [] ++ block :: [] from rfl, extent_append] at found
      cases inner : extent opened [] rest with
      | error cause =>
        rw [inner] at found
        cases found
      | ok place =>
        obtain ⟨inner_closing, middle⟩ := place
        rw [inner] at found
        have outside : extent block [] middle = .ok (closing, after) := found
        have shorter := extent_length inner
        obtain ⟨inside, rest_eq, inside_balanced, inner_closes⟩ := closedBy_of_extent inner
        obtain ⟨next, rfl, balanced, closes⟩ := closedBy_of_extent outside
        exact ⟨line :: inside ++ inner_closing :: next, by simp [rest_eq],
          .block role inner_closes inside_balanced balanced, closes⟩
termination_by lines.length
decreasing_by all_goals simp_wf <;> omega

theorem extent_eq_ok_iff {lines after} :
    extent block [] lines = .ok (closing, after) ↔
      ∃ inside, ClosedBy block lines inside closing after := by
  constructor
  · exact closedBy_of_extent
  · rintro ⟨inside, rfl, balanced, closes⟩
    exact balanced.is_inside.extent_eq closes after

theorem ClosedBy.unique {lines first second left right : List Line} {other : Line}
    (one : ClosedBy block lines first closing left)
    (two : ClosedBy block lines second other right) :
    second = first ∧ other = closing ∧ right = left := by
  have found := extent_eq_ok_iff.mpr ⟨first, one⟩
  rw [extent_eq_ok_iff.mpr ⟨second, two⟩] at found
  cases found
  exact ⟨List.append_cancel_right (two.lines_eq.symm.trans one.lines_eq), rfl, rfl⟩

/-! ### Definitions -/

/-- Executes a `function` statement with the statements that follow it, and gives those that come
after its end. -/
def definition (host : Host σ) (engine : Engine σ) (line : Line) (rest : List Line) :
    Run σ (List Line) := do
  setLine line
  let header ← ofExcept (parse line.params)
  let passage ← walk host engine .function .capture rest
  defineFunction header passage.captured
  return passage.rest

def definitionNote (function : UserFunction) : String :=
  "DEFINE " ++ function.name ++ " lines " ++ Nat.repr function.body.length

/-- The definition binds a function in one location. Its body are the statements up to the matching
end. But for time, the current statement and the trace, nothing else changes. -/
structure Defines (line : Line) (rest : List Line) (session : Session σ) (function : UserFunction)
    (location : Location) (left : List Line) (after : Session σ) : Prop where
  header : parse line.params = .ok ⟨function.name, function.params⟩
  body : ∃ closing, ClosedBy .function rest function.body closing left
  found : session.functions.location function.name = .ok location
  after_eq : after = Session.noted (definitionNote function)
    { session with
      patience := session.patience - (function.body.length + 1)
      currentLine := some line
      functions := session.functions.put (.user function) location }
  others : ∀ other, after.functions.valueAt? other =
    if other = location then some (.user function) else session.functions.valueAt? other

theorem Defines.of_closed (session : Session σ) {line header}
    (parsed : parse line.params = .ok header) {rest body left}
    (closed : ClosedBy .function rest body closing left) {location}
    (located : session.functions.location header.name = .ok location) :
    let function : UserFunction := ⟨header.name, header.params, body⟩
    Defines line rest session function location left
      (Session.noted (definitionNote function)
        { session with
          patience := session.patience - (body.length + 1)
          currentLine := some line
          functions := session.functions.put (.user function) location }) where
  header := parsed
  body := ⟨closing, closed⟩
  found := located
  after_eq := rfl
  others other := by
    rw [Session.noted_functions]
    exact Namespace.valueAt?_put (Namespace.location_exists located) _ other

/-- What can be wrong with a definition. -/
inductive DefinitionFault (line : Line) (rest : List Line) (session : Session σ) :
    Fault → Prop where
  | header {cause} (malformed : parse line.params = .error cause) :
      DefinitionFault line rest session cause
  | block {cause} (unclosed : ∀ inside closing after, ¬ClosedBy .function rest inside closing after)
      (found : (∃ keyword, cause = .unexpectedKeyword keyword) ∨
        ∃ unclosed, cause = .unexpectedEnd unclosed) : DefinitionFault line rest session cause
  | scope {cause header} (parsed : parse line.params = .ok header)
      (refused : session.functions.location header.name = .error cause) :
      DefinitionFault line rest session cause
  | timeOut (late : session.patience < rest.length) :
      DefinitionFault line rest session (.timeOut session.timeout)

section Definitions

theorem defineFunction_of_location (session : Session σ) {header location}
    (found : session.functions.location header.name = .ok location) (body : List Line) :
    defineFunction header body session =
      .ok () (Session.noted (definitionNote ⟨header.name, header.params, body⟩)
        { session with
          functions := session.functions.put (.user ⟨header.name, header.params, body⟩)
            location }) := by
  simp only [defineFunction, get_bind, Namespace.insert_eq, found]
  rfl

theorem defineFunction_of_refused (session : Session σ) {header cause}
    (refused : session.functions.location header.name = .error cause) (body : List Line) :
    defineFunction header body session = .error (.fault cause) session := by
  simp only [defineFunction, get_bind, Namespace.insert_eq, refused]
  rfl

variable (host : Host σ) (engine : Engine σ) (session : Session σ) {line : Line}
  {header : FunctionHeader} {rest : List Line}
  (parsed : parse line.params = .ok header)

include parsed

/-- A block without an end is passed by up to the statement that shows it. -/
theorem definition_of_unclosed {cause} (unclosed : extent .function [] rest = .error cause) :
    ∃ passed unread, rest = passed ++ unread ∧
      definition host engine line rest session =
        (do spend passed.length; fault cause : Run σ (List Line))
          { session with currentLine := some line } := by
  have walked : PassedBy .capture rest (walk host engine .function .capture rest) _ :=
    walkWithin_passedBy (Nat.le_refl _) (by simp) (.inl rfl)
  rw [unclosed] at walked
  obtain ⟨passed, unread, rest_eq, walk_eq⟩ := walked
  refine ⟨passed, unread, rest_eq, ?_⟩
  simp only [definition, parsed, walk_eq, bind_assoc]
  rfl

/-- The statements up to the end of the block are passed by, and the function is bound. -/
theorem definition_of_closed {body left closing}
    (closed : ClosedBy .function rest body closing left) :
    definition host engine line rest session =
      (do spend (body.length + 1)
          defineFunction header body
          return left : Run σ (List Line)) { session with currentLine := some line } := by
  obtain ⟨rfl, balanced, closes⟩ := closed
  have walked : walk host engine .function .capture (body ++ closing :: left) = _ :=
    walk_of_extent (by simp) (.inl rfl) (balanced.is_inside.extent_eq closes left)
  simp only [definition, parsed, walked, bind_assoc]
  rfl

end Definitions

/-- The definition of a function is all or nothing. It binds one function, with the statements up to
the matching end of the block as its body, and execution goes on after it; or something is wrong
with it, and then no function and no variable is changed. -/
theorem definition_all_or_nothing (host : Host σ) (engine : Engine σ) (block : Block) {line : Line}
    (role : line.role = .opens .function) (rest : List Line) :
    walk host engine block .execute (line :: rest) = (do
        checkPatience
        walk host engine block .execute (← definition host engine line rest)) ∧
      ∀ session : Session σ,
        (∃ function location left after,
          definition host engine line rest session = .ok left after ∧
            Defines line rest session function location left after) ∨
        ∃ cause patience,
          definition host engine line rest session =
              .error (.fault cause) { session with patience, currentLine := some line } ∧
            DefinitionFault line rest session cause := by
  constructor
  · rw [walk_function rest role]
    simp [definition]
  intro session
  cases parsed : parse line.params with
  | error cause =>
    right
    exact ⟨cause, session.patience, by simp only [definition, parsed]; rfl, .header parsed⟩
  | ok header =>
    let there : Session σ := { session with currentLine := some line }
    cases found : extent .function [] rest with
    | error cause =>
      right
      obtain ⟨passed, unread, rest_eq, ended⟩ :=
        definition_of_unclosed host engine session parsed found
      rw [ended]
      by_cases enough : passed.length ≤ session.patience
      · have spent : spend passed.length there = .ok () (there.withPatience _) :=
          (spend_eq _ _).trans (if_pos enough)
        refine ⟨cause, _, bind_ok spent, .block ?_ (extent_error found)⟩
        intro inside closing after closed
        rw [extent_eq_ok_iff.mpr ⟨inside, closed⟩] at found
        cases found
      · have late : spend passed.length there = .error _ (there.withPatience 0) :=
          (spend_eq _ _).trans (if_neg enough)
        refine ⟨_, 0, bind_error late, .timeOut ?_⟩
        simp only [rest_eq, List.length_append]
        omega
    | ok place =>
      obtain ⟨closing, left⟩ := place
      obtain ⟨body, closed⟩ := extent_eq_ok_iff.mp found
      rw [definition_of_closed host engine session parsed closed]
      by_cases enough : body.length + 1 ≤ session.patience
      · let later := there.withPatience (session.patience - (body.length + 1))
        have spent : spend (body.length + 1) there = .ok () later :=
          (spend_eq _ _).trans (if_pos enough)
        rw [bind_ok spent]
        cases located : session.functions.location header.name with
        | error cause =>
          right
          exact ⟨cause, _, bind_error (defineFunction_of_refused later located body),
            .scope parsed located⟩
        | ok location =>
          left
          exact ⟨⟨header.name, header.params, body⟩, location, left, _,
            bind_ok (defineFunction_of_location later located body),
            .of_closed session parsed closed located⟩
      · right
        have late : spend (body.length + 1) there = .error _ (there.withPatience 0) :=
          (spend_eq _ _).trans (if_neg enough)
        refine ⟨_, 0, bind_error late, .timeOut ?_⟩
        simp only [closed.lines_eq, List.length_append, List.length_cons]
        omega

/-- A function inside of a conditional in the body is part of the body. -/
theorem definition_all_or_nothing_nested :
    let line (number : Nat) (command params : String) : Line :=
      ⟨.current, command, false, params, number⟩
    let head := line 1 "function" "Outer(x)"
    let body := [line 2 "if" "x", line 3 "fu" "Inner()", line 4 "endf" "", line 5 "endif" ""]
    let left := [line 7 "echo" "1"]
    let rest := body ++ line 6 "endfunction" "" :: left
    let session : Session Recorder := { Session.new {} 5.0 with patience := 20 }
    head.role = .opens .function ∧
      ∃ function location after,
        definition Recorder.host (engine Recorder.host) head rest session = .ok left after ∧
          Defines head rest session function location left after ∧ function.body = body := by
  intro line head body left rest session
  have role : head.role = .opens .function := rfl
  refine ⟨role, ?_⟩
  have closed : ClosedBy .function rest body (line 6 "endfunction" "") left :=
    ⟨rfl, .block rfl rfl (.block rfl rfl (.done _) (.done _)) (.done _), rfl⟩
  have parsed : parse "Outer(x)" = .ok ⟨"Outer", ["x"]⟩ := rfl
  have located : session.functions.location "Outer" = .ok (.global "Outer") := by
    have resolved : resolve "Outer" = .ok (.global, "Outer") := rfl
    simp only [Namespace.location, resolved]
    rfl
  obtain ⟨function, location, found, after, ended, defines⟩ | ⟨cause, patience, -, wrong⟩ :=
    (definition_all_or_nothing Recorder.host (engine Recorder.host) .script role rest).2 session
  · obtain ⟨closing, found_closed⟩ := defines.body
    obtain ⟨body_eq, -, rfl⟩ := closed.unique found_closed
    exact ⟨function, location, after, ended, defines, body_eq⟩
  · cases wrong with
    | header malformed => cases parsed.symm.trans malformed
    | block unclosed _ => exact absurd closed (unclosed _ _ _)
    | scope parsed' refused =>
      cases parsed.symm.trans parsed'
      cases located.symm.trans refused
    | timeOut late => exact absurd late (by decide)

end Vimlet
