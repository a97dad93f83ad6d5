import Vimlet.Proofs.Interpreter.Tracking
import Vimlet.Proofs.Regime.Control

/-!
# Regimes of statements, calls and requests

Statements and calls keep to a regime as soon as their engines do, so by induction on the nesting
every request does. Where a rule of the regime is about statements, the probe has let the statement
pass before.
-/

namespace Vimlet

open Run Engine FunctionHeader

variable {σ α β : Type}
variable {host : Host σ} {probe probe' : Probe σ} {session : Session σ} {post : Heap → α → Prop}
  {line : Line} {ending : Ending σ Unit} {body body' : Run σ Unit} {walk walk' : Run σ Passage}
  {heap : Heap} {function : UserFunction} {args : List Value} {depth : Nat}

theorem left_bindPattern (bind : String → Value → Run σ Unit) (pattern : Pattern) (value : Value)
    (session : Session σ) :
    left (bindPattern bind pattern value session) =
      left (bindAll bind (pattern.bindings session.heap value).1 session) := by
  rw [bindPattern, get_bind]
  dsimp only
  cases bound : bindAll bind (pattern.bindings session.heap value).1 session with
  | error stop after => rw [bind_error bound]
  | ok done after =>
    rw [bind_ok bound]
    cases (pattern.bindings session.heap value).2 <;> rfl

/-! ### Computations that leave the functions -/

/-- A computation leaves all functions as they are. -/
def KeepsFunctions (act : Run σ α) : Prop :=
  ∀ session, (left (act session)).functions = session.functions

namespace KeepsFunctions

theorem pure (value : α) : KeepsFunctions (Pure.pure value : Run σ α) := fun _ => rfl

theorem fault (cause : Fault) : KeepsFunctions (Run.fault cause : Run σ α) := fun _ => rfl

theorem bind {act} {next : α → Run σ β} (first : KeepsFunctions act)
    (second : ∀ value, KeepsFunctions (next value)) : KeepsFunctions (act >>= next) := by
  intro session
  have before := first session
  cases ended : act session with
  | ok value after =>
    rw [ended] at before
    rw [bind_ok ended]
    exact (second value after).trans before
  | error stop after =>
    rw [ended] at before
    rw [bind_error ended]
    exact before

theorem capturing {mode} (walks : KeepsFunctions walk) (lines : List Line) :
    KeepsFunctions (capturing mode lines walk) := by
  unfold Vimlet.capturing
  split
  · exact walks.bind fun _ => .pure _
  · exact walks

theorem checkPatience : KeepsFunctions (Run.checkPatience : Run σ Unit) := by
  intro session
  obtain ⟨-, late⟩ | ⟨_, -, passed⟩ := checkPatience_cases session
  · rw [late]
    rfl
  · rw [passed]
    rfl

end KeepsFunctions

/-- A walk that captures statements executes none of them. -/
theorem walkProbed_capture_functions (host : Host σ) (probe : Probe σ) (engine : Engine σ)
    (fuel : Nat) (block : Block) (lines : List Line) :
    KeepsFunctions (walkProbed host probe engine fuel block .capture lines) := by
  induction fuel generalizing block lines with
  | zero =>
    cases lines with
    | nil =>
      simp only [walkProbed]
      split
      · exact .pure _
      · exact .fault _
    | cons line rest => exact .fault _
  | succ fuel ih =>
    cases lines with
    | nil =>
      simp only [walkProbed]
      split
      · exact .pure _
      · exact .fault _
    | cons line rest =>
      simp only [walkProbed, walkLine, reduceCtorEq, false_and, if_false]
      refine .bind .checkPatience fun _ => ?_
      cases Role.ofKeyword (expandKeyword line.command) with
      | closes closed =>
        dsimp only
        split
        · exact .pure _
        · exact .fault _
      | branch =>
        dsimp only
        rw [nextBranch_of_passesBy _ (.inl rfl), pure_bind]
        split
        · exact .capturing (ih block rest) _
        · exact .fault _
      | simple => exact .capturing (ih block rest) _
      | opens inner => exact .bind (ih _ _) fun _ => .capturing (ih _ _) _

namespace Regime

variable {regime : Regime σ}

mutual

theorem owned_bindings (nil : regime.owns heap .nil)
    (contents : ∀ handle, regime.Owned heap (heap.contents handle)) (pattern : Pattern) {value}
    (owned : regime.owns heap value) :
    ∀ bound ∈ (pattern.bindings heap value).1, regime.owns heap bound.2 := by
  intro bound mem
  match pattern with
  | .name word =>
    rw [Pattern.bindings, List.mem_singleton] at mem
    exact mem ▸ owned
  | .list items =>
    unfold Pattern.bindings at mem
    split at mem
    · rename_i cell
      dsimp only at mem
      split at mem
      · exact owned_bindItems nil contents items (contents (.list cell)) bound mem
      · cases mem
    · cases mem
  | .object names =>
    unfold Pattern.bindings at mem
    split at mem
    · rename_i cell
      obtain ⟨word, _, rfl⟩ := List.mem_map.mp mem
      dsimp only
      cases found : (heap.object cell).get? (Pattern.bareName word) with
      | none => exact nil
      | some entry => exact contents (.object cell) entry (Table.mem_values_of_get? found)
    · cases mem

theorem owned_bindItems (nil : regime.owns heap .nil)
    (contents : ∀ handle, regime.Owned heap (heap.contents handle)) (patterns : List Pattern)
    {values} (owned : regime.Owned heap values) :
    ∀ bound ∈ (Pattern.bindItems heap patterns values).1, regime.owns heap bound.2 := by
  intro bound mem
  match patterns, values with
  | [], _ => cases mem
  | _ :: _, [] => cases mem
  | item :: items, value :: values =>
    have first := owned_bindings nil contents item owned.head
    unfold Pattern.bindItems at mem
    split at mem
    · rename_i is_first
      rw [is_first] at first
      obtain mem | mem := List.mem_append.mp mem
      · exact first bound mem
      · exact owned_bindItems nil contents items owned.tail bound mem
    · exact first bound mem

end

namespace Kept

variable (kept : regime.Kept host probe probe') {there : Session σ} {engine engine' : Engine σ}
include kept

/-! ### Bindings -/

theorem bindAll {bind : String → Value → Run σ Unit}
    (binds : ∀ session name value, regime.owns session.heap value →
      regime.Accords session (bind name value) (bind name value)) {bound}
    (owned : ∀ entry ∈ bound, regime.owns session.heap entry.2) :
    regime.Accords session (bindAll bind bound) (bindAll bind bound) := by
  induction bound generalizing session with
  | nil => exact kept.pure trivial
  | cons first rest ih =>
    refine kept.bind (binds session _ _ (owned first List.mem_cons_self)) fun _ _ leads _ => ?_
    exact ih fun entry mem => leads.owns (owned entry (List.mem_cons_of_mem _ mem))

theorem bindPattern {bind : String → Value → Run σ Unit}
    (binds : ∀ session name value, regime.owns session.heap value →
      regime.Accords session (bind name value) (bind name value)) (pattern : Pattern) {value}
    (owned : regime.owns session.heap value) :
    regime.Accords session (bindPattern bind pattern value) (bindPattern bind pattern value) := by
  refine inspect fun held => ?_
  have parts := owned_bindings (kept.owns_scalar rfl)
    (fun handle => kept.owns_contents handle held) pattern owned
  refine kept.bind (kept.bindAll binds parts) (fun _ _ _ _ => ?_) held
  split
  · exact kept.fault _
  · exact kept.pure trivial

/-! ### Assignments -/

section Engines

variable (engines : regime.Engines engine engine')
include engines

theorem readTarget (target : String) :
    regime.Agrees session regime.owns (readTarget engine target) (readTarget engine' target) := by
  unfold Vimlet.readTarget
  split
  · refine kept.bind (kept.lookup _) fun _ _ _ _ => ?_
    exact kept.bind (engines.eval _ _) fun _ _ _ _ => kept.index _ _
  · exact kept.lookup _

omit engines in
theorem applyCompound (operator : Compound) (a b : Value) :
    regime.Complies session regime.owns (applyCompound operator a b) := by
  cases operator with
  | add | sub | mul | div =>
    exact kept.computed fun value done => (Value.arithmetic_ok done).2.2
  | concat => exact inspect (kept.pure (kept.owns_scalar rfl))

section Let

variable (permitted : regime.permits (.statement line) there) (is_let : line.keyword = "let")
include permitted is_let

omit engines in
theorem assigned (name : String) {value} (owned : regime.owns session.heap value) :
    regime.Accords session (Run.assign name value) (Run.assign name value) := by
  intro held
  have assigns : Run.assign name value session =
      (Run.ofExcept (session.vars.insert name value) >>= fun vars =>
        modify fun session => { session with vars }) session := rfl
  rw [assigns]
  cases inserted : session.vars.insert name value with
  | error cause => exact kept.fault cause held
  | ok vars =>
    exact kept.modified (kept.assign permitted is_let held owned inserted) held

theorem assignTarget (target : String) {value} (owned : regime.owns session.heap value) :
    regime.Accords session (assignTarget engine target value)
      (assignTarget engine' target value) := by
  have assigns (session : Session σ) (name : String) (value : Value) :
      regime.owns session.heap value → regime.Accords session (Run.assign name value)
        (Run.assign name value) :=
    kept.assigned permitted is_let name
  unfold Vimlet.assignTarget
  split
  · exact kept.bind (kept.converted _) fun pattern _ leads _ =>
      kept.bindPattern assigns pattern (leads.owns owned)
  · split
    · refine kept.bind (kept.lookup _) fun _ _ leads _ => ?_
      exact kept.bind (engines.eval _ _) fun _ _ leads' _ =>
        kept.setItem _ _ (leads'.owns (leads.owns owned))
    · split
      · exact assigns _ _ _ owned
      · exact kept.fault _

theorem executeLet : regime.Accords session (executeLet engine line) (executeLet engine' line) := by
  unfold Vimlet.executeLet
  split
  · exact kept.fault _
  · refine kept.bind (kept.converted _) fun assignment _ _ _ => ?_
    refine kept.bind (engines.eval _ _) fun value _ _ owned => ?_
    split
    · refine kept.bind (kept.readTarget engines _) fun _ _ _ _ => ?_
      exact kept.bind (kept.applyCompound _ _ _) fun _ _ _ owned =>
        kept.assignTarget engines permitted is_let _ owned
    · exact kept.assignTarget engines permitted is_let _ owned

end Let

/-! ### Nested statements -/

theorem runNested (line : Line) :
    regime.Accords session (runNested engine line) (runNested engine' line) := by
  unfold Vimlet.runNested
  split
  · exact engines.run _ _
  · exact kept.pure trivial

omit engines in
theorem ends_swallowed (bang : Bool) (ends : regime.Ends session (fun _ _ => True) ending) :
    regime.Ends session (fun _ _ => True) (afterSwallow bang ending) := by
  unfold afterSwallow
  split
  · split
    · exact ⟨kept.leads_trans ends.1 (kept.leads ends.1.holds (kept.noted _ _)), trivial⟩
    · exact ends
  · exact ends

theorem executeSilent (line : Line) :
    regime.Accords session (executeSilent host engine line) (executeSilent host engine' line) := by
  intro held
  have around := kept.silent held
  obtain ⟨alike, ends⟩ := kept.runNested engines line around.holds
  rw [executeSilent_eq, executeSilent_eq]
  exact kept.layered held around (fun _ => rfl)
    ⟨alike.through (afterSwallow line.bang) fun after => ⟨after, rfl⟩,
      kept.ends_swallowed line.bang ends⟩

theorem executeUnsilent (line : Line) :
    regime.Accords session (executeUnsilent host engine line)
      (executeUnsilent host engine' line) := by
  intro held
  have around := kept.unsilent held
  rw [executeUnsilent_eq, executeUnsilent_eq]
  exact kept.layered held around (fun _ => rfl) (kept.runNested engines line around.holds)

/-! ### Commands -/

section Command

variable (permitted : regime.permits (.statement line) there)
  (named : line.keyword ∉ simpleKeywords)
include permitted named

omit engines in
theorem removed (known : there.commands.get? line.command = some .unlet) (name : String) :
    regime.Accords session (Run.unlet name) (Run.unlet name) := by
  intro held
  rw [Run.unlet, get_bind]
  cases found : session.vars.remove? name with
  | error cause => exact kept.fault cause held
  | ok answer =>
    cases answer with
    | none => exact kept.pure trivial held
    | some vars =>
      have lasts := kept.unlet permitted named known held found
      exact ⟨.rfl, kept.leads held lasts, trivial⟩

omit engines in
theorem unletAll (known : there.commands.get? line.command = some .unlet) (bang : Bool)
    (names : List String) :
    regime.Accords session (unletAll bang names) (unletAll bang names) := by
  induction names generalizing session with
  | nil => exact kept.pure trivial
  | cons name rest ih =>
    refine kept.bind (kept.removed permitted named known name) fun removed _ _ _ => ?_
    split
    · exact kept.fault_bind _
    · exact ih

theorem runCommand {command} (known : there.commands.get? line.command = some command) :
    regime.Accords session (runCommand host engine command line)
      (runCommand host engine' command line) := by
  have echoed {session : Session σ} (message : String) : regime.Accords session
    (onHost (host.echo message)) (onHost (host.echo message)) :=
    kept.modified (kept.echo session message)
  cases command with
  | call => exact kept.discarded (kept.enclosing (engines.eval _ _))
  | echo =>
    simp only [Vimlet.runCommand]
    split
    · exact echoed _
    · exact kept.bind (kept.enclosing (engines.eval _ _)) fun _ _ _ _ =>
        inspect (echoed _)
  | unlet =>
    simp only [Vimlet.runCommand]
    split
    · exact kept.fault _
    · exact kept.unletAll permitted named known _ _
  | host id => exact fun held => ⟨.rfl, kept.command permitted named known held⟩

end Command

/-! ### Simple statements -/

omit engines in
/-- A step that only changes the session, and what follows in the session that it leaves. -/
theorem after_modify {change : Session σ → Session σ} {next next' : Unit → Run σ α}
    (lasts : regime.lasts session (change session))
    (agrees : regime.Agrees (change session) post (next ()) (next' ())) :
    regime.Agrees session post (modify change >>= next) (modify change >>= next') := by
  intro held
  have leads := kept.leads held lasts
  obtain ⟨alike, ends⟩ := agrees leads.holds
  exact ⟨alike, kept.ends_later leads ends⟩

theorem executeReturn (line : Line) :
    regime.Accords session (executeReturn engine line) (executeReturn engine' line) := by
  refine inspect ?_
  split
  · exact kept.fault _
  · split
    · exact kept.stopped fun value returns => by cases returns; exact kept.owns_scalar rfl
    · refine kept.bind (engines.eval _ _) fun value _ _ owned => ?_
      exact kept.stopped fun value returns => by cases returns; exact owned

omit engines in
theorem executeLeave (keyword : String) {stop} (leaves : ∀ value, stop ≠ .returning value) :
    regime.Accords session (executeLeave keyword stop) (executeLeave keyword stop) := by
  refine inspect ?_
  split
  · exact kept.fault _
  · exact kept.stopped fun value returns => absurd returns (leaves value)

theorem executeSimple (permitted : regime.permits (.statement line) session) :
    regime.Accords session (executeSimple host engine line.keyword line)
      (executeSimple host engine' line.keyword line) := by
  refine kept.after_modify (kept.line session line) ?_
  refine kept.after_modify (kept.noted _ _) ?_
  have commands : (Session.noted ("LINE " ++ Nat.repr line.number ++ " " ++ line.text)
      { session with currentLine := some line }).commands = session.commands := by
    unfold Session.noted
    split <;> rfl
  change regime.Agrees (Session.noted _ _) _ _ _
  generalize Session.noted _ _ = noted at commands ⊢
  split
  · rename_i is_let
    exact kept.executeLet engines permitted is_let
  · exact kept.executeSilent engines line
  · exact kept.executeUnsilent engines line
  · exact kept.bind (engines.eval _ _) fun _ _ _ _ => kept.executeText engines _
  · exact kept.fault _
  · exact kept.fault _
  · exact kept.executeReturn engines line
  · exact kept.executeLeave "break" nofun
  · exact kept.executeLeave "continue" nofun
  · have named : line.keyword ∉ simpleKeywords := by
      simp_all [simpleKeywords]
    refine inspect ?_
    split
    · rename_i command known
      exact kept.runCommand engines permitted named (commands ▸ known)
    · exact kept.fault _

end Engines

/-! ### Layers with bindings of their own -/

/-- What follows bindings that do not raise signals agrees in the session that they leave. -/
theorem after_setup {setup : Run σ Unit} {next next' inner} (ordinary : Ordinary setup)
    (agrees : ∀ session : Session σ, regime.Agrees session post next next')
    (held : regime.holds (left (setup inner))) :
    regime.Alike ((setup >>= fun _ => next) inner) ((setup >>= fun _ => next') inner) ∧
      regime.Ends (left (setup inner)) post ((setup >>= fun _ => next') inner) := by
  cases ended : setup inner with
  | ok value after =>
    rw [ended] at held
    rw [bind_ok ended, bind_ok ended]
    exact agrees after held
  | error stop after =>
    rw [ended] at held
    rw [bind_error ended, bind_error ended]
    refine ⟨.rfl, kept.leads_self held, fun value returns => ?_⟩
    have unseen := ordinary ended
    rw [returns] at unseen
    cases unseen

/-! ### Loops -/

omit kept in
theorem ends_iteration (ends : regime.Ends session (fun _ _ => True) ending) :
    regime.Ends session (fun _ _ => True) (afterIteration ending) := by
  unfold afterIteration
  split
  · exact ⟨ends.1, trivial⟩
  · exact ends

omit kept in
theorem iteration (bodies : ∀ session : Session σ, regime.Accords session body body') :
    regime.Accords session (iteration body) (iteration body') := by
  intro held
  obtain ⟨alike, ends⟩ := bodies session held
  rw [iteration_eq, iteration_eq]
  exact ⟨alike.through afterIteration fun after => ⟨after, rfl⟩, ends_iteration ends⟩

omit kept in
theorem ends_loop (ends : regime.Ends session (fun _ _ => True) ending) :
    regime.Ends session (fun _ _ => True) (afterLoop ending) := by
  unfold afterLoop
  split
  · exact ⟨ends.1, trivial⟩
  · exact ends

theorem looped {iterations iterations'}
    (agrees : regime.Accords session.enterLoop iterations iterations') :
    regime.Accords session (Vimlet.loop iterations) (Vimlet.loop iterations') := by
  intro held
  have around := kept.loop held
  obtain ⟨alike, ends⟩ := agrees around.holds
  rw [loop_eq, loop_eq]
  exact kept.layered held around (fun _ => rfl)
    ⟨alike.through afterLoop fun after => ⟨after, rfl⟩, ends_loop ends⟩

theorem repeatWhile {asks asks'} (asked : ∀ session : Session σ, regime.Accords session asks asks')
    (bodies : ∀ session : Session σ, regime.Accords session body body') (fuel : Nat) :
    regime.Accords session (repeatWhile asks body fuel) (repeatWhile asks' body' fuel) := by
  induction fuel generalizing session with
  | zero => exact inspect (kept.fault _)
  | succ fuel ih =>
    refine kept.bind (asked session) fun answer _ _ _ => ?_
    split
    · refine kept.bind kept.checkPatience fun _ _ _ _ => ?_
      exact kept.bind (iteration bodies) fun _ _ _ _ => ih
    · exact kept.pure trivial

section For

variable {pattern : Pattern} (permitted : regime.permits (.statement line) there)
  (role : line.role = .opens .forLoop) (binds : line.Binds pattern)
  (bodies : ∀ session : Session σ, regime.Accords session body body')
include permitted role binds bodies

theorem inFrame {item : Value} (owned : regime.owns session.heap item) :
    regime.Accords session (inFrame (do Vimlet.bindPattern declare pattern item; body))
      (inFrame (do Vimlet.bindPattern declare pattern item; body')) := by
  intro held
  have around := kept.frame permitted role binds held owned
  obtain ⟨alike, ends⟩ :=
    kept.after_setup (bindPattern_ordinary pattern item) bodies around.holds
  exact kept.layered held around (fun _ => rfl)
    ⟨alike.through afterIteration fun after => ⟨after, rfl⟩, ends_iteration ends⟩

theorem repeatFor {items} (owned : regime.Owned session.heap items) :
    regime.Accords session (repeatFor pattern body items) (repeatFor pattern body' items) := by
  induction items generalizing session with
  | nil => exact kept.pure trivial
  | cons item rest ih =>
    rw [repeatFor_cons, repeatFor_cons]
    exact kept.bind (kept.inFrame permitted role binds bodies owned.head) fun _ _ leads _ =>
      ih (owned.tail.later leads)

end For

section Engines

variable (engines : regime.Engines engine engine')
include engines

theorem condition (line : Line) :
    regime.Accords session (condition engine line) (condition engine' line) := by
  refine kept.bind (kept.setLine line) fun _ _ _ _ => ?_
  exact kept.bind (engines.eval _ _) fun _ _ _ _ => inspect (kept.pure trivial)

theorem nextBranch (keyword : String) (line : Line) (mode : Mode) :
    regime.Accords session (nextBranch engine keyword line mode)
      (nextBranch engine' keyword line mode) := by
  cases mode with
  | capture | execute | skipToEnd => exact kept.pure trivial
  | skip =>
    simp only [Vimlet.nextBranch]
    split
    · exact kept.pure trivial
    · refine kept.bind (kept.condition engines line) fun answer _ _ _ => ?_
      split <;> exact kept.pure trivial

theorem runWhile (line : Line) (bodies : ∀ session : Session σ, regime.Accords session body body') :
    regime.Accords session (runWhile engine line body) (runWhile engine' line body') :=
  inspect (kept.looped (kept.repeatWhile (fun _ => kept.condition engines line) bodies _))

theorem runFor (permitted : regime.permits (.statement line) there)
    (role : line.role = .opens .forLoop)
    (bodies : ∀ session : Session σ, regime.Accords session body body') :
    regime.Accords session (runFor engine line body) (runFor engine' line body') := by
  have parsed {session : Session σ} {β : Type} (result : Except Fault β) :
      regime.Complies session (fun _ value => result = .ok value)
        (Run.ofExcept result) := kept.ofExcept fun _ is_value => is_value
  refine kept.bind (kept.setLine line) fun _ _ _ _ => ?_
  refine kept.bind (parsed _) fun header _ _ is_header => ?_
  refine kept.bind (parsed _) fun pattern _ _ is_pattern => ?_
  refine kept.bind (engines.eval _ _) fun value _ _ _ => ?_
  refine kept.bind (kept.elements value) fun items after _ owned => kept.looped ?_
  exact kept.repeatFor permitted role ⟨header, is_header, is_pattern⟩ bodies owned

end Engines

/-! ### Functions -/

theorem defineFunction (permitted : regime.permits (.statement line) there)
    (role : line.role = .opens .function) {header}
    (parsed : parse line.params = .ok header)
    (same : session.functions = there.functions) (body : List Line) :
    regime.Accords session (defineFunction header body) (defineFunction header body) := by
  refine inspect fun held => ?_
  cases defined :
    session.functions.insert header.name (.user ⟨header.name, header.params, body⟩) with
  | error cause => exact kept.fault_bind cause held
  | ok functions =>
    have leads := kept.leads held (kept.define permitted role parsed same held defined)
    exact ⟨.rfl, kept.ends_later leads (kept.note _ leads.holds).2⟩

omit kept in
theorem ends_call (nil : ∀ heap, regime.owns heap .nil)
    (ends : regime.Ends session (fun _ _ => True) ending) :
    regime.Ends session regime.owns (afterCall ending) := by
  rcases ending with ⟨value, after⟩ | ⟨stop, after⟩
  · exact ⟨ends.1, nil _⟩
  · cases stop with
    | returning value => exact ⟨ends.1, ends.2 value rfl⟩
    | _ => exact ends

omit kept in
theorem callUser_of_count_ne (count : args.length ≠ function.params.length) (engine : Engine σ) :
    callUser engine function args session =
      .error (.fault (.wrongArgCount function.params.length args.length)) session := by
  rw [Vimlet.callUser, get_bind, if_pos count]
  rfl

theorem callUser (engines : regime.Engines engine engine')
    (permitted : regime.permits (.call function args) there)
    (owned : regime.Owned session.heap args) :
    regime.Agrees session regime.owns (callUser engine function args)
      (callUser engine' function args) := by
  intro held
  have stopped (cause : Fault) : regime.Ends session regime.owns (.error (.fault cause) session) :=
    ⟨kept.leads_self held, nofun⟩
  by_cases count : args.length = function.params.length
  · obtain ⟨cause, stops⟩ | ⟨shallow, calls⟩ := callUser_cases function args session
    · rw [stops, stops]
      exact ⟨.rfl, stopped cause⟩
    · have noted := kept.leads held (kept.noted (callNote function args) session)
      have around := kept.call permitted noted.holds (owned.later noted) count
        (by simpa using shallow)
      obtain ⟨alike, ends⟩ := kept.after_setup (bindAll_ordinary _)
        (fun session => engines.run session function.body) around.holds
      obtain ⟨alike', ends'⟩ := kept.layered noted.holds around (fun _ => rfl)
        ⟨alike.through afterCall fun after => ⟨after, rfl⟩,
          ends_call (fun _ => kept.owns_scalar rfl) ends⟩
      rw [Session.noted_loopDepth] at alike' ends'
      rw [calls, calls]
      exact ⟨alike', kept.ends_later noted ends'⟩
  · rw [callUser_of_count_ne count, callUser_of_count_ne count]
    exact ⟨.rfl, stopped _⟩

theorem callProbed (engines : regime.Engines engine engine') (name : String)
    (owned : regime.Owned session.heap args) :
    regime.Agrees session regime.owns (callProbed host probe engine name args)
      (callProbed host probe' engine' name args) := by
  refine inspect (kept.bind (kept.converted _) fun found _ leads _ => ?_)
  have args_owned := owned.later leads
  rcases found with _ | function
  · refine kept.bind (kept.converted _) fun value _ leads' _ => ?_
    split
    · exact kept.callRef engines _ (args_owned.later leads')
    · exact kept.fault _
  · cases function with
    | builtin _ signature f =>
      exact kept.bind (kept.checkArguments signature args) fun _ _ leads' _ =>
        kept.applyBuiltin engines (args_owned.later leads') f
    | host _ signature id =>
      have checked {session : Session σ} : regime.Accords session
        (signature.forM (Vimlet.checkArguments · args))
        (signature.forM (Vimlet.checkArguments · args)) := by
        cases signature with
        | none => exact kept.pure trivial
        | some signature => exact kept.checkArguments signature args
      exact kept.bind checked fun _ _ leads' _ held =>
        ⟨.rfl, kept.function id held (args_owned.later leads')⟩
    | user function =>
      exact kept.seen _ fun permitted => kept.callUser engines permitted args_owned

/-! ### Walks -/

theorem capturing (mode : Mode) (lines : List Line) (walks : regime.Accords session walk walk') :
    regime.Accords session (capturing mode lines walk) (capturing mode lines walk') := by
  unfold Vimlet.capturing
  split
  · exact kept.bind walks fun _ _ _ _ => kept.pure trivial
  · exact walks

/-- A `function` statement goes the same way if the walk through its block, which leaves the
functions, and what follows do. -/
theorem definition (permitted : regime.permits (.statement line) session)
    (role : line.role = .opens .function)
    (walks : ∀ session : Session σ, regime.Accords session walk walk')
    (stays : KeepsFunctions walk') {next next' : Passage → Run σ α}
    (nexts : ∀ passage (session : Session σ),
      regime.Agrees session post (next passage) (next' passage)) :
    regime.Agrees session post
      (do
        Run.setLine line
        let header ← Run.ofExcept (parse line.params)
        let passage ← walk
        Vimlet.defineFunction header passage.captured
        next passage)
      (do
        Run.setLine line
        let header ← Run.ofExcept (parse line.params)
        let passage ← walk'
        Vimlet.defineFunction header passage.captured
        next' passage) := by
  refine kept.bind_ended (kept.setLine line) fun _ after lined _ _ => ?_
  cases parsed : parse line.params with
  | error cause => exact kept.fault_bind cause
  | ok header =>
    simp only [Run.ofExcept, pure_bind]
    refine kept.bind_ended (walks after) fun passage last walked _ _ => ?_
    have same : last.functions = session.functions := by
      have walk_stays := stays after
      rw [walked] at walk_stays
      cases lined
      exact walk_stays
    exact kept.bind (kept.defineFunction permitted role parsed same _) fun _ _ _ _ =>
      nexts passage _

theorem walkProbed (engines : regime.Engines engine engine') (fuel : Nat) (block : Block)
    (mode : Mode) (lines : List Line) :
    regime.Accords session (walkProbed host probe engine fuel block mode lines)
      (walkProbed host probe' engine' fuel block mode lines) := by
  induction fuel generalizing session block mode lines with
  | zero =>
    cases lines with
    | nil =>
      simp only [Vimlet.walkProbed]
      split
      · exact kept.pure trivial
      · exact kept.fault _
    | cons line rest => exact kept.fault _
  | succ fuel ih =>
    cases lines with
    | nil =>
      simp only [Vimlet.walkProbed]
      split
      · exact kept.pure trivial
      · exact kept.fault _
    | cons line rest =>
      simp only [Vimlet.walkProbed, walkLine]
      refine kept.bind kept.checkPatience fun _ _ _ _ => ?_
      refine kept.seen_if fun permitted => ?_
      cases role : Role.ofKeyword (expandKeyword line.command) with
      | closes closed =>
        dsimp only
        split
        · exact kept.pure trivial
        · exact kept.fault _
      | branch =>
        dsimp only
        split
        · refine kept.bind (kept.nextBranch engines _ line mode) fun next _ _ _ => ?_
          exact kept.capturing mode [line] (ih block next rest)
        · exact kept.fault _
      | simple =>
        dsimp only
        split
        · rename_i executes
          have permitted := permitted ⟨executes, congrArg Role.executes role⟩
          exact kept.bind (kept.executeSimple engines permitted) fun _ _ _ _ =>
            kept.capturing mode [line] (ih block mode rest)
        · exact kept.capturing mode [line] (ih block mode rest)
      | opens inner =>
        cases mode with
        | execute =>
          have permitted := permitted ⟨rfl, congrArg Role.executes role⟩
          cases inner with
          | conditional =>
            refine kept.bind (kept.condition engines line) fun taken _ _ _ => ?_
            exact kept.bind (ih _ _ _) fun _ _ _ _ => ih _ _ _
          | whileLoop =>
            refine kept.bind (kept.runWhile engines line fun _ =>
              kept.discarded (ih _ _ _)) fun _ _ _ _ => ?_
            exact kept.bind (ih _ _ _) fun _ _ _ _ => ih _ _ _
          | forLoop =>
            refine kept.bind (kept.runFor engines permitted role fun _ =>
              kept.discarded (ih _ _ _)) fun _ _ _ _ => ?_
            exact kept.bind (ih _ _ _) fun _ _ _ _ => ih _ _ _
          | function =>
            exact kept.definition permitted role (fun _ => ih _ _ _)
              (walkProbed_capture_functions _ _ _ _ _ _) fun _ _ => ih _ _ _
          | script => exact absurd role (Role.ofKeyword_ne_opens_script _)
        | capture =>
          exact kept.bind (ih _ _ _) fun _ _ _ _ => kept.capturing _ _ (ih _ _ _)
        | skip | skipToEnd => exact kept.bind (ih _ _ _) fun _ _ _ _ => ih _ _ _

/-! ### Engines and requests -/

theorem engines_zero :
    regime.Engines (probed host probe 0) (probed host probe' 0) := by
  have deep {session : Session σ} {β : Type} {post : Heap → β → Prop} :
      regime.Complies session post (throw .tooDeep) := kept.stopped nofun
  exact ⟨fun _ _ => deep, fun _ _ _ _ => deep, fun _ _ => deep⟩

/-- Everything that the interpreter does keeps to the regime, by induction on the nesting. -/
theorem engines (depth : Nat) :
    regime.Engines (probed host probe depth) (probed host probe' depth) := by
  induction depth with
  | zero => exact kept.engines_zero
  | succ depth ih =>
    exact ⟨fun _ text => kept.evaluate ih text, fun _ name _ owned => kept.callProbed ih name owned,
      fun _ lines => kept.discarded (kept.walkProbed ih _ _ _ lines)⟩

theorem finishing {script script'} (scripts : regime.Accords session script script') :
    regime.Accords session (finishing script) (finishing script') := by
  intro held
  obtain ⟨alike, ends⟩ := scripts held
  rw [finishing_eq, finishing_eq]
  refine ⟨alike.through afterScript fun after => ⟨after, rfl⟩, ?_⟩
  generalize script' session = ending at ends ⊢
  unfold afterScript
  split
  · exact ⟨kept.leads_trans ends.1 (kept.leads ends.1.holds (kept.noted _ _)), trivial⟩
  · exact ends

theorem request (request : Request)
    (owned : ∀ name args, request = .call name args → regime.Owned session.heap args)
    (depth : Nat) :
    regime.Agrees session regime.owns (request.performWith (probed host probe depth))
      (request.performWith (probed host probe' depth)) := by
  have engines := kept.engines depth
  cases request with
  | run script =>
    exact kept.bind (kept.enclosing (kept.finishing (engines.run _ _))) fun _ _ _ _ =>
      kept.pure (kept.owns_scalar rfl)
  | eval text => exact kept.enclosing (engines.eval _ text)
  | call name args =>
    refine kept.enclosing (engines.call _ name ?_)
    rw [session.begin_heap]
    exact owned name args rfl

end Kept

/-! ### Runs that are not stopped -/

/-- The regime that asks for nothing. -/
def anything : Regime σ where
  holds _ := True
  lasts _ _ := True
  owns _ _ := True
  guarded := False
  lenient := True
  permits _ _ := True

section Anything

theorem anything_around (session inner : Session σ) (leave : Session σ → Session σ) :
    anything.Around session inner leave := ⟨trivial, fun _ => trivial⟩

theorem anything_ends (session : Session σ) (always : ∀ heap value, post heap value)
    (ending : Ending σ α) : anything.Ends session post ending := by
  cases ending with
  | ok value after => exact ⟨⟨trivial, trivial, fun _ => trivial⟩, always _ _⟩
  | error stop after => exact ⟨⟨trivial, trivial, fun _ => trivial⟩, fun _ _ => trivial⟩

theorem anything_kept
    (alike : ∀ event session, anything.Alike (probe event session) (probe' event session))
    (quiet : ∀ event session, probe' event session = .ok () session ∨
      ∃ after, probe' event session = .error .internal after) :
    anything.Kept host probe probe' where
  refl _ := trivial
  trans _ _ := trivial
  lasts_holds _ _ := trivial
  owns_in unguarded := nomatch unguarded
  owns_contents _ _ _ _ := trivial
  fits_contents _ _ unguarded := nomatch unguarded
  write _ _ _ := trivial
  make _ _ _ := ⟨trivial, trivial⟩
  echo _ _ := trivial
  trace _ _ := trivial
  patience _ _ := trivial
  line _ _ := trivial
  event {session} event _ :=
    ⟨alike event session, (quiet event session).imp (⟨·, trivial⟩) fun ⟨after, stops⟩ =>
      ⟨after, stops, trivial⟩⟩
  store _ unguarded := nomatch unguarded
  script _ _ := anything_around _ _ _
  callback _ _ _ := anything_around _ _ _
  enclosed _ := anything_around _ _ _
  unwound _ _ := anything_around _ _ _
  silent _ := anything_around _ _ _
  unsilent _ := anything_around _ _ _
  loop _ := anything_around _ _ _
  frame _ _ _ _ _ := anything_around _ _ _
  call _ _ _ _ _ := anything_around _ _ _
  assign _ _ _ _ _ := trivial
  unlet _ _ _ _ _ := trivial
  define _ _ _ _ _ _ := trivial
  command _ _ _ _ := anything_ends _ (fun _ _ => trivial) _
  function _ _ _ := anything_ends _ (fun _ _ => trivial) _

end Anything

end Regime

variable {property : Event → Session σ → Prop}

/-- A run that is not stopped at an event without a property has the property at all events. -/
theorem EveryEvent.of_unstopped {act : Engine σ → Run σ α} {message}
    (engaged : ∀ {probe probe' : Probe σ}, Regime.anything.Kept host probe probe' →
      Regime.anything.Accords session (act (probed host probe depth))
        (act (probed host probe' depth)))
    (unstopped :
      isStopped (act (probed host (.stopping property message) depth) session) = false) :
    EveryEvent host depth act session property := by
  have same {probe : Probe σ} (kept : Regime.anything.Kept host (.stopping property message) probe) :
      act (probed host (.stopping property message) depth) session =
        act (probed host probe depth) session := by
    obtain same | ⟨_, after, stops⟩ := (engaged kept trivial).1
    · exact same
    · rw [stops] at unstopped
      cases unstopped
  have alike {probe : Probe σ}
      (passes : ∀ event there, property event there → probe event there = .ok () there)
      (event : Event) (there : Session σ) :
      Regime.anything.Alike (Probe.stopping property message event there) (probe event there) := by
    by_cases has : property event there
    · exact .inl ((Probe.stopping_of_property has message).trans (passes event there has).symm)
    · exact .inr ⟨trivial, _, Probe.stopping_of_not has message⟩
  intro other
  have idle : Regime.anything.Kept host (.stopping property message) .idle :=
    Regime.anything_kept (alike fun _ _ _ => rfl) fun _ _ => .inl rfl
  have plain := same idle
  rw [probed_idle] at plain
  rw [← plain]
  refine (same (Regime.anything_kept (alike fun event there has => ?_) fun event there => ?_)).symm
  · exact Probe.stopping_of_property has other
  · by_cases has : property event there
    · exact .inl (Probe.stopping_of_property has other)
    · exact .inr ⟨_, Probe.stopping_of_not has other⟩

theorem Request.everyEvent_of_unstopped (request : Request) (message : String)
    (unstopped : isStopped (request.performWith
      (probed host (.stopping property message) maxNesting) session) = false) :
    EveryEvent host maxNesting request.performWith session property :=
  .of_unstopped (fun kept => kept.request request (fun _ _ _ _ _ => trivial) maxNesting) unstopped

theorem UserFunction.everyEvent_of_unstopped (function : UserFunction) (args : List Value)
    (message : String)
    (unstopped : isStopped (callUser (probed host (.stopping property message) depth)
      function args session) = false) :
    EveryEvent host depth (callUser · function args) session property := by
  have permitted : Regime.anything.permits (.call function args) session := trivial
  exact .of_unstopped
    (fun kept => kept.callUser (kept.engines depth) permitted fun _ _ => trivial) unstopped

end Vimlet
