import Vimlet.Proofs.Regime.Statement
import Vimlet.Proofs.Session.Balance
import Vimlet.Proofs.Statement.Patterns

/-!
# Parameters are Local

A call binds its parameters in a frame of its own, as long as their names are Local. If nothing else
is bound in the body but Local names of `for` statements, the call leaves all variables as they
were, and the body reads each parameter as its argument.
-/

namespace Vimlet

open List Session

variable {σ α : Type}
variable {line : Line} {there session before after caller inner : Session σ}
  {bound : List (String × Value)} {text : String} {header : FunctionHeader} {space : Namespace α}
  {frame : Frame Value}

/-! ### Local names -/

/-- A name without a colon that does not start with an uppercase letter. -/
def isLocal (name : String) : Bool :=
  !name.toList.contains ':' && !name.toList.head?.any Text.isUppercase

variable {name : String} {outer : List (Frame α)}

theorem resolve_of_isLocal (is_local : isLocal name) : resolve name = .ok (.local, name) := by
  obtain ⟨plain, lower⟩ := Bool.and_eq_true_iff.mp is_local
  rw [Bool.not_eq_true'] at plain lower
  unfold resolve
  split
  · rename_i chars
    rw [chars] at plain
    simp at plain
  · rw [if_neg (by simpa using plain), if_neg (by simpa using lower)]

namespace FunctionHeader

theorem isParameter_of_checked {params} (checked : checkParameters params = .ok ()) :
    ∀ param ∈ params, isParameter param := by
  induction params with
  | nil => nofun
  | cons first rest ih =>
    unfold checkParameters at checked
    split at checked
    · rename_i is_parameter
      exact forall_mem_cons.mpr ⟨is_parameter, ih checked⟩
    · cases checked

theorem isParameter_of_parse (parsed : parse text = .ok header) :
    ∀ param ∈ header.params, isParameter param.toList := by
  have checked_params {params : List (List Char)} {name : String}
      (built : (do checkParameters params; return ⟨name, params.map String.ofList⟩) =
        (.ok header : Except Fault FunctionHeader)) :
      ∀ param ∈ header.params, isParameter param.toList := by
    cases checked : checkParameters params with
    | error cause =>
      rw [checked] at built
      cases built
    | ok _ =>
      rw [checked] at built
      obtain rfl := Except.ok.inj built
      intro param mem
      obtain ⟨chars, listed, rfl⟩ := mem_map.mp mem
      rw [String.toList_ofList]
      exact isParameter_of_checked checked chars listed
  unfold parse at parsed
  dsimp only at parsed
  split at parsed
  · cases parsed
  split at parsed
  · split at parsed
    · cases parsed
    · exact checked_params parsed
  · cases parsed

theorem not_colon_of_isParameter {param} (is_parameter : isParameter param) : ':' ∉ param := by
  intro colon
  cases param with
  | nil => cases colon
  | cons first rest =>
    obtain ⟨starts, word⟩ := Bool.and_eq_true_iff.mp is_parameter
    obtain rfl | later := mem_cons.mp colon
    · revert starts; decide
    · have := all_eq_true.mp word _ later
      revert this; decide

/-- The parameters of a function that do not start with an uppercase letter are Local. -/
theorem isLocal_of_parse (parsed : parse text = .ok header) {param} (mem : param ∈ header.params)
    (lower : param.toList.head?.any Text.isUppercase = false) : isLocal param := by
  have plain := not_colon_of_isParameter (isParameter_of_parse parsed param mem)
  simp [isLocal, plain, lower]

end FunctionHeader

/-! ### Frames with Local names -/

/-- Binds names in a frame, from left to right. -/
def Frame.bindAll (frame : Frame α) (bound : List (String × α)) : Frame α :=
  bound.foldl (fun frame entry => frame.insert entry.1 entry.2) frame

@[simp]
theorem Frame.barrier_bindAll (frame : Frame α) (bound : List (String × α)) :
    (frame.bindAll bound).barrier = frame.barrier := by
  induction bound generalizing frame with
  | nil => rfl
  | cons first rest ih => exact ih _

theorem Frame.get?_bindAll_of_other (frame : Frame α) {bound}
    (other : ∀ entry ∈ bound, entry.1 ≠ name) :
    (frame.bindAll bound).bindings.get? name = frame.bindings.get? name := by
  induction bound generalizing frame with
  | nil => rfl
  | cons first rest ih =>
    obtain ⟨first_other, rest_other⟩ := forall_mem_cons.mp other
    exact (ih _ rest_other).trans
      ((Table.get?_insert _ _ _ _).trans (if_neg first_other.symm))

/-- The last binding of a name counts. -/
theorem Frame.get?_bindAll (frame : Frame α) (before : List (String × α)) (name : String)
    (value : α) {after} (last : ∀ entry ∈ after, entry.1 ≠ name) :
    (frame.bindAll (before ++ (name, value) :: after)).bindings.get? name = some value := by
  rw [bindAll, foldl_append, foldl_cons]
  exact (get?_bindAll_of_other _ last).trans
    ((Table.get?_insert _ _ _ _).trans (if_pos rfl))

theorem Namespace.declare_of_isLocal (is_local : isLocal name) {frame}
    (frames : space.frames = frame :: outer) (value : α) :
    space.declare name value = .ok { space with frames := frame.insert name value :: outer } := by
  rw [declare, resolve_of_isLocal is_local, frames]
  rfl

theorem left_bindAll_declare (local_names : ∀ entry ∈ bound, isLocal entry.1) {outer}
    (frames : session.vars.frames = frame :: outer) :
    left (bindAll Run.declare bound session) =
      { session with vars.frames := frame.bindAll bound :: outer } := by
  induction bound generalizing session frame with
  | nil =>
    rw [Frame.bindAll, foldl_nil, ← frames]
    rfl
  | cons first rest ih =>
    obtain ⟨first_local, rest_local⟩ := forall_mem_cons.mp local_names
    have declares : Run.declare first.1 first.2 session =
        .ok () { session with vars.frames := frame.insert first.1 first.2 :: outer } := by
      rw [Run.declare, Run.get_bind, Namespace.declare_of_isLocal first_local frames]
      rfl
    have opened : bindAll Run.declare (first :: rest) session =
        (Run.declare first.1 first.2 >>= fun _ => bindAll Run.declare rest) session := rfl
    rw [opened, Run.bind_ok declares]
    exact ih rest_local rfl

theorem Pattern.mem_names_of_bindings (heap : Heap) (pattern : Pattern) (value : Value) :
    ∀ entry ∈ (pattern.bindings heap value).1, entry.1 ∈ pattern.names := fun _ mem =>
  (pattern.bindings_binds heap value).names.subset (mem_map_of_mem mem)

/-! ### Events that bind Local names only -/

/-- The names that a `for` statement with this line binds. -/
def Line.loopNames (line : Line) : List String :=
  match LoopHeader.parse line.params with
  | .error _ => []
  | .ok header =>
    match Pattern.parse header.pattern with
    | .error _ => []
    | .ok pattern => pattern.names

theorem Line.Binds.loopNames {pattern} (binds : line.Binds pattern) :
    line.loopNames = pattern.names := by
  obtain ⟨header, parsed, read⟩ := binds
  simp only [Line.loopNames, parsed, read]

/-- A command removes variables, or it is one of the host. -/
def Command.isForeign : Command → Bool
  | .unlet | .host _ => true
  | .call | .echo => false

/-- Nothing is assigned, removed or defined, no command of the host is run, and `for` statements and
calls bind Local names. -/
def Event.bindsLocally (event : Event) (there : Session σ) : Bool :=
  match event with
  | .statement line =>
    line.keyword ≠ "let" && line.role ≠ .opens .function &&
    (line.role ≠ .opens .forLoop || line.loopNames.all isLocal) &&
    (line.keyword ∈ simpleKeywords ||
      !(there.commands.get? line.command).any Command.isForeign)
  | .call function _ => function.params.all isLocal
  | .store _ _ => true

namespace Event

theorem ne_let_of_bindsLocally (binds : bindsLocally (.statement line) there) :
    line.keyword ≠ "let" := by
  simp only [bindsLocally, Bool.and_eq_true, decide_eq_true_eq] at binds
  exact binds.1.1.1

theorem role_ne_function_of_bindsLocally (binds : bindsLocally (.statement line) there) :
    line.role ≠ .opens .function := by
  simp only [bindsLocally, Bool.and_eq_true, decide_eq_true_eq] at binds
  exact binds.1.1.2

theorem isLocal_of_bindsLocally (binds : bindsLocally (.statement line) there)
    (role : line.role = .opens .forLoop) : ∀ name ∈ line.loopNames, isLocal name := by
  simp only [bindsLocally, Bool.and_eq_true, Bool.or_eq_true, decide_eq_true_eq] at binds
  exact all_eq_true.mp (binds.1.2.resolve_left (absurd role))

theorem not_isForeign_of_bindsLocally (binds : bindsLocally (.statement line) there)
    (is_command : line.keyword ∉ simpleKeywords) {command}
    (found : there.commands.get? line.command = some command) : command.isForeign = false := by
  simp only [bindsLocally, Bool.and_eq_true, Bool.or_eq_true, decide_eq_true_eq] at binds
  simpa [found] using binds.2.resolve_left is_command

end Event

/-! ### Variables that stay -/

/-- All variables are the same, but for those of the Builtin scope. -/
structure Session.KeepsVariables (before after : Session σ) : Prop where
  vars : after.vars = { before.vars with builtins := after.vars.builtins }
  script : after.functions.scripts.active = before.functions.scripts.active
  functionDepth : after.functionDepth = before.functionDepth
  runs : after.runs = before.runs

/-- The functions of a host keep the variables. -/
def Host.KeepsVariables (host : Host σ) : Prop :=
  ∀ id args (session : Session σ), session.Running →
    session.KeepsVariables (left (host.function id args session))

namespace Session.KeepsVariables

theorem refl (session : Session σ) : session.KeepsVariables session := ⟨rfl, rfl, rfl, rfl⟩

theorem trans {first second third : Session σ} (before : first.KeepsVariables second)
    (after : second.KeepsVariables third) : first.KeepsVariables third where
  vars := by rw [after.vars, before.vars]
  script := after.script.trans before.script
  functionDepth := after.functionDepth.trans before.functionDepth
  runs := after.runs.trans before.runs

theorem frames (keeps : before.KeepsVariables after) : after.vars.frames = before.vars.frames := by
  rw [keeps.vars]

theorem running (keeps : before.KeepsVariables after) (running : before.Running) :
    after.Running := by
  refine ⟨keeps.runs ▸ running.inside, ?_⟩
  rw [keeps.vars, keeps.script]
  exact running.script

end Session.KeepsVariables

/-! ### Inside of a call -/

/-- The frames of loops that were entered since the body of a call was entered. -/
def Session.loopFrames (caller there : Session σ) : List (Frame Value) :=
  there.vars.frames.take (there.vars.depth - (caller.vars.depth + 1))

/-- The innermost active loop that binds a parameter gives its value, else the last argument for it.
-/
def Session.ReadsParameters (caller : Session σ) (bound : List (String × Value))
    (there : Session σ) : Prop :=
  ∀ before name arg after, bound = before ++ (name, arg) :: after →
    (∀ entry ∈ after, entry.1 ≠ name) →
    there.vars.find? name = .ok (some ((Frame.find? name (caller.loopFrames there)).getD arg))

/-- An event binds Local names only, and the parameters of a call can be read in its body. -/
def Event.ReadsLocally (caller : Session σ) (bound : List (String × Value)) (event : Event)
    (there : Session σ) : Prop :=
  event.bindsLocally there ∧
    (there.functionDepth = caller.functionDepth + 1 → caller.ReadsParameters bound there)

/-- The frames of a session while the body of a call is run: those of the caller, that of the call,
and those of loops in the body. -/
def Session.InBody (caller : Session σ) (bound : List (String × Value)) (there : Session σ) : Prop :=
  ∃ loops : List (Frame Value), (∀ frame ∈ loops, frame.barrier = false) ∧
    there.vars.frames = loops ++ Frame.bindAll ⟨{}, true⟩ bound :: caller.vars.frames

theorem Frame.find?_append {inner : List (Frame α)} (name : String)
    (opens : ∀ frame ∈ inner, frame.barrier = false) :
    find? name (inner ++ outer) = (find? name inner).or (find? name outer) := by
  induction inner with
  | nil => rfl
  | cons frame inner ih =>
    obtain ⟨first_opens, rest_opens⟩ := forall_mem_cons.mp opens
    rw [cons_append, find?, find?, first_opens]
    cases frame.bindings.get? name with
    | some value => rfl
    | none => exact ih rest_opens

namespace Session.InBody

theorem of_frames (in_body : caller.InBody bound there)
    (frames : after.vars.frames = there.vars.frames) : caller.InBody bound after := by
  obtain ⟨loops, opens, there_frames⟩ := in_body
  exact ⟨loops, opens, frames.trans there_frames⟩

theorem push (in_body : caller.InBody bound there) (opens : frame.barrier = false)
    (frames : inner.vars.frames = frame :: there.vars.frames) : caller.InBody bound inner := by
  obtain ⟨loops, loops_open, there_frames⟩ := in_body
  refine ⟨frame :: loops, forall_mem_cons.mpr ⟨opens, loops_open⟩, ?_⟩
  rw [frames, there_frames, cons_append]

theorem readsParameters (in_body : caller.InBody bound there)
    (local_names : ∀ entry ∈ bound, isLocal entry.1) : caller.ReadsParameters bound there := by
  intro before name arg after split last
  obtain ⟨loops, opens, frames⟩ := in_body
  have loopFrames : caller.loopFrames there = loops := by
    have above : there.vars.depth - (caller.vars.depth + 1) = loops.length := by
      rw [Namespace.depth, Namespace.depth, frames, length_append, length_cons]
      omega
    rw [Session.loopFrames, above, frames, take_left]
  have in_call : Frame.find? name (Frame.bindAll ⟨{}, true⟩ bound :: caller.vars.frames) =
      some arg := by
    rw [Frame.find?, split, Frame.get?_bindAll _ _ _ _ last]
  have is_local : isLocal name := local_names (name, arg) (split ▸ by simp)
  have found : there.vars.findLocal? name = some ((Frame.find? name loops).getD arg) := by
    rw [Namespace.findLocal?, frames, Frame.find?_append name opens, in_call]
    cases Frame.find? name loops <;> rfl
  rw [Namespace.find?, resolve_of_isLocal is_local, loopFrames]
  exact congrArg Except.ok found

end Session.InBody

/-- Inside of a call, the variables stay, and the frames are those of its body while no other
function is active in it. -/
def parameters (caller : Session σ) (bound : List (String × Value)) : Regime σ where
  holds there := there.Running ∧ caller.functionDepth < there.functionDepth ∧
    (there.functionDepth = caller.functionDepth + 1 → caller.InBody bound there)
  lasts before after := before.Running → before.KeepsVariables after
  owns _ _ := True
  guarded := False
  lenient := False
  permits event there := event.bindsLocally there

/-! ### Layers with a frame -/

theorem Namespace.left_of_frames {frame} (frames : space.frames = frame :: outer) :
    space.leave?.getD space = { space with frames := outer } := by
  simp only [leave?, frames, Option.getD_some]

namespace parameters

variable {host : Host σ}

theorem lasts_of_vars (vars : after.vars = before.vars)
    (functions : after.functions = before.functions)
    (functionDepth : after.functionDepth = before.functionDepth) (runs : after.runs = before.runs) :
    (parameters caller bound).lasts before after :=
  fun _ => ⟨by rw [vars], by rw [functions], functionDepth, runs⟩

theorem holds_of_frames (held : (parameters caller bound).holds session) (running : inner.Running)
    (frames : inner.vars.frames = session.vars.frames)
    (functionDepth : inner.functionDepth = session.functionDepth) :
    (parameters caller bound).holds inner := by
  obtain ⟨_, deeper, in_body⟩ := held
  refine ⟨running, functionDepth ▸ deeper, fun depth => ?_⟩
  exact (in_body (functionDepth ▸ depth)).of_frames frames

/-- A layer that leaves the variables, but for those of the Builtin scope. -/
theorem around {leave : Session σ → Session σ} (held : (parameters caller bound).holds session)
    (enters : session.KeepsVariables inner)
    (leaves : ∀ after : Session σ, after.KeepsVariables (leave after)) :
    (parameters caller bound).Around session inner leave where
  holds := holds_of_frames held (enters.running held.1) enters.frames enters.functionDepth
  lasts lasts _ := (enters.trans (lasts (enters.running held.1))).trans (leaves _)

/-- Variables that stay inside of a layer with a frame of its own stay around it. -/
theorem lasts_framed (lasts : (parameters caller bound).lasts inner after)
    (running : session.Running)
    (vars : inner.vars = { session.vars with frames := frame :: session.vars.frames })
    (script : inner.functions.scripts.active = session.functions.scripts.active)
    (runs : inner.runs = session.runs) :
    after.leave.vars = { session.vars with builtins := after.leave.vars.builtins } ∧
      after.leave.functions.scripts.active = session.functions.scripts.active ∧
      after.leave.functionDepth = inner.functionDepth ∧ after.leave.runs = session.runs := by
  have inner_running : inner.Running := by
    refine ⟨runs ▸ running.inside, ?_⟩
    rw [vars, script]
    exact running.script
  have stays := lasts inner_running
  have frames : after.vars.frames = frame :: session.vars.frames := by rw [stays.frames, vars]
  refine ⟨?_, ?_, stays.functionDepth, stays.runs.trans runs⟩
  · rw [Session.leave, Namespace.left_of_frames frames, stays.vars, vars]
  · rw [Session.leave, Namespace.scripts_left, stays.script, script]

theorem kept (keeps : host.KeepsVariables) (local_names : ∀ entry ∈ bound, isLocal entry.1)
    (message : String) :
    (parameters caller bound).Kept host
      (.stopping (fun event there => event.bindsLocally there) message)
      (.stopping (Event.ReadsLocally caller bound) message) where
  refl session _ := .refl session
  trans before after running := (before running).trans (after ((before running).running running))
  lasts_holds lasts held :=
    have stays := lasts held.1
    holds_of_frames held (stays.running held.1) stays.frames stays.functionDepth
  owns_in unguarded := nomatch unguarded
  owns_contents _ _ _ _ := trivial
  fits_contents _ _ unguarded := nomatch unguarded
  write _ _ _ := lasts_of_vars rfl rfl rfl rfl
  make _ _ _ := ⟨lasts_of_vars rfl rfl rfl rfl, trivial⟩
  echo _ _ := lasts_of_vars rfl rfl rfl rfl
  trace _ _ := lasts_of_vars rfl rfl rfl rfl
  patience _ _ := lasts_of_vars rfl rfl rfl rfl
  line _ _ := lasts_of_vars rfl rfl rfl rfl
  event event held :=
    Regime.stopping_event
      ⟨fun binds => ⟨binds, fun depth => (held.2.2 depth).readsParameters local_names⟩, And.left⟩
      And.left (lasts_of_vars rfl rfl rfl rfl)
  store _ unguarded := nomatch unguarded
  script {session} id held :=
    { holds := holds_of_frames held ⟨held.1.inside, rfl⟩ rfl rfl
      lasts := fun lasts running => by
        have stays := lasts ⟨running.inside, rfl⟩
        refine ⟨?_, rfl, stays.functionDepth, stays.runs⟩
        rw [setScript, Namespace.setScript, stays.vars, ← running.script]
        rfl }
  callback held _ _ := around held ⟨rfl, rfl, rfl, rfl⟩ fun _ => ⟨rfl, rfl, rfl, rfl⟩
  enclosed {session} held :=
    have begun := session.begin_balanced
    { holds := holds_of_frames held (begin_running held.1.script)
        (by rw [session.begin_vars]) begun.functionDepth
      lasts := fun lasts running => by
        have stays := lasts (begin_running running.script)
        refine ⟨?_, stays.script.trans begun.functionScript,
          stays.functionDepth.trans begun.functionDepth, rfl⟩
        rw [← session.begin_vars]
        exact stays.vars }
  unwound held outermost := absurd outermost held.1.inside
  silent held := around held ⟨rfl, rfl, rfl, rfl⟩ fun _ => ⟨rfl, rfl, rfl, rfl⟩
  unsilent held := around held ⟨rfl, rfl, rfl, rfl⟩ fun _ => ⟨rfl, rfl, rfl, rfl⟩
  loop held := around held ⟨rfl, rfl, rfl, rfl⟩ fun _ => ⟨rfl, rfl, rfl, rfl⟩
  frame {session _ line pattern item} permitted role binds held _ := by
    have names : ∀ entry ∈ (pattern.bindings (session.enter false).heap item).1,
        isLocal entry.1 := fun entry mem =>
      Event.isLocal_of_bindsLocally permitted role entry.1
        (binds.loopNames ▸ Pattern.mem_names_of_bindings _ _ _ entry mem)
    rw [left_bindPattern, left_bindAll_declare names rfl]
    refine ⟨⟨⟨held.1.inside, held.1.script⟩, held.2.1, fun depth => ?_⟩, fun lasts running => ?_⟩
    · exact (held.2.2 depth).push (Frame.barrier_bindAll _ _) rfl
    · obtain ⟨vars, script, functionDepth, runs⟩ := lasts_framed lasts running rfl rfl rfl
      exact ⟨vars, script, functionDepth, runs⟩
  call {session _ function args} permitted held _ _ _ := by
    have names : ∀ entry ∈ function.params.zip args, isLocal entry.1 := fun entry mem =>
      all_eq_true.mp permitted entry.1 (of_mem_zip mem).1
    rw [left_bindAll_declare names rfl]
    refine ⟨⟨⟨held.1.inside, held.1.script⟩, Nat.lt_succ_of_lt held.2.1, fun depth => ?_⟩,
      fun lasts running => ?_⟩
    · exact absurd (Nat.succ.inj depth) (Nat.ne_of_gt held.2.1)
    · obtain ⟨vars, script, functionDepth, runs⟩ := lasts_framed lasts running rfl rfl rfl
      exact ⟨vars, script, congrArg (· - 1) functionDepth, runs⟩
  assign permitted is_let := absurd is_let (Event.ne_let_of_bindsLocally permitted)
  unlet permitted is_command found :=
    nomatch Event.not_isForeign_of_bindsLocally permitted is_command found
  define permitted role := absurd role (Event.role_ne_function_of_bindsLocally permitted)
  command permitted is_command found :=
    nomatch Event.not_isForeign_of_bindsLocally permitted is_command found
  function {session args} id held _ := by
    have stays := keeps id args session held.1
    have held_after := holds_of_frames held (stays.running held.1) stays.frames stays.functionDepth
    cases ended : host.function id args session with
    | ok value after =>
      rw [ended] at stays held_after
      exact ⟨⟨fun _ => stays, held_after, fun _ => trivial⟩, trivial⟩
    | error stop after =>
      rw [ended] at stays held_after
      exact ⟨⟨fun _ => stays, held_after, fun _ => trivial⟩, fun _ _ => trivial⟩

/-- The body of a call goes the same way under both probes, and leaves the variables. -/
theorem runBody_kept (keeps : host.KeepsVariables) (function : UserFunction) {args : List Value}
    (local_names : ∀ entry ∈ function.params.zip args, isLocal entry.1) (running : session.Running)
    (message : String) (depth : Nat) :
    let ending property :=
      runBody (Engine.probed host (.stopping property message) depth) function args
        session.enterFunction
    let reading := Event.ReadsLocally session (function.params.zip args)
    ending (fun event there => event.bindsLocally there) = ending reading ∧
      (left (ending reading)).leave.vars =
        { session.vars with builtins := (left (ending reading)).leave.vars.builtins } := by
  have declared : left (bindAll Run.declare (function.params.zip args) session.enterFunction) = _ :=
    left_bindAll_declare local_names rfl
  have held : (parameters session (function.params.zip args)).holds
      (left (bindAll Run.declare (function.params.zip args) session.enterFunction)) := by
    rw [declared]
    exact ⟨⟨running.inside, running.script⟩, Nat.lt_succ_self _, fun _ => ⟨[], nofun, rfl⟩⟩
  have regime : (parameters session (function.params.zip args)).Kept host _ _ :=
    kept keeps local_names message
  obtain ⟨alike, ends⟩ := regime.after_setup (bindAll_ordinary _)
    (fun there => (regime.engines depth).run there function.body) held
  have lasts := ends.leads.lasts
  rw [declared] at lasts
  exact ⟨alike.resolve_right And.left, (lasts_framed lasts running rfl rfl rfl).1⟩

end parameters

theorem Event.readsLocally_noted (session : Session σ) (note : String)
    (bound : List (String × Value)) :
    Event.ReadsLocally (session.noted note) bound = Event.ReadsLocally session bound := by
  unfold Session.noted
  split <;> rfl

theorem Session.Running.noted (running : session.Running) (note : String) :
    (session.noted note).Running := by
  unfold Session.noted
  split <;> exact ⟨running.inside, running.script⟩

/-- A call of a function whose parameters are Local leaves all variables but the Builtin ones as
they were, if its body binds nothing but Local names of `for` statements. Meanwhile each parameter
reads as its last argument, unless a `for` statement binds it. -/
theorem callUser_parameters_local {host : Host σ} (keeps : host.KeepsVariables)
    {function : UserFunction} {text : String}
    (parsed : FunctionHeader.parse text = .ok ⟨function.name, function.params⟩)
    (lower : ∀ param ∈ function.params, param.toList.head?.any Text.isUppercase = false)
    (args : List Value) (depth : Nat) {session : Session σ} (running : session.Running)
    (locally : EveryEvent host depth (callUser · function args) session fun event there =>
      event.bindsLocally there) :
    let after := left (callUser (Engine.ofDepth host depth) function args session)
    after.vars = { session.vars with builtins := after.vars.builtins } ∧
      EveryEvent host depth (callUser · function args) session
        (Event.ReadsLocally session (function.params.zip args)) := by
  have local_names : ∀ entry ∈ function.params.zip args, isLocal entry.1 := fun entry mem =>
    have param_mem := (of_mem_zip mem).1
    FunctionHeader.isLocal_of_parse parsed param_mem (lower entry.1 param_mem)
  obtain ⟨cause, stops⟩ | ⟨_, calls⟩ := callUser_cases function args session
  · refine ⟨?_, fun _ => (stops _).trans (stops _).symm⟩
    rw [stops]
    rfl
  · have inside (message : String) := parameters.runBody_kept keeps function local_names
      (running.noted (callNote function args)) message depth
    simp only [Event.readsLocally_noted, noted_vars] at inside
    have same (message : String) := congrArg
      (fun ending => onLeft (leaveFunction session.loopDepth) (afterCall ending))
      (inside message).1
    simp only [← calls] at same
    have plain : callUser (Engine.ofDepth host depth) function args session = _ :=
      (locally "").symm.trans (same "")
    refine ⟨?_, fun message => (same message).symm.trans (locally message)⟩
    rw [plain, calls, left_onLeft, left_afterCall]
    exact (inside "").2

theorem Recorder.host_keepsVariables : Recorder.host.KeepsVariables :=
  fun _ _ session _ => .refl session

/-- A function that calls itself with another argument before it reads its parameter. -/
theorem callUser_parameters_local_recursive :
    let function : UserFunction :=
      ⟨"F", ["n"], scriptLines "if n > 0\ncall F(n - 1)\nendif\nreturn n"⟩
    let session : Session Recorder :=
      { new {} 5.0 with
        runs := 1, patience := 20, functions.globals := .ofList [("F", .user function)] }
    let ending := callUser (Engine.ofDepth Recorder.host 8) function [.integer 1] session
    (match ending with
      | .ok (.integer 1) _ => true
      | _ => false) = true ∧
      (left ending).vars = { session.vars with builtins := (left ending).vars.builtins } ∧
      EveryEvent Recorder.host 8 (callUser · function [.integer 1]) session
        (Event.ReadsLocally session [("n", .integer 1)]) := by
  intro function session
  have parsed : FunctionHeader.parse "F(n)" = .ok ⟨"F", ["n"]⟩ := rfl
  have unstopped : isStopped (callUser (Engine.probed Recorder.host
      (.stopping (fun event there => event.bindsLocally there) "") 8) function [.integer 1] session) =
      false := by
    rw [Probe.stopping_eq]
    decide +kernel
  exact ⟨by decide +kernel, callUser_parameters_local Recorder.host_keepsVariables parsed
    (by decide +kernel) [.integer 1] 8 ⟨Nat.one_ne_zero, rfl⟩
    (function.everyEvent_of_unstopped [.integer 1] "" unstopped)⟩

/-- A parameter that starts with an uppercase letter is bound in the Global scope, and stays. -/
theorem callUser_binds_parameter_globally :
    let function : UserFunction := ⟨"F", ["X"], scriptLines "return X"⟩
    let session : Session Recorder := { new {} 5.0 with runs := 1, patience := 20 }
    let after := left (callUser (Engine.ofDepth Recorder.host 4) function [.integer 5] session)
    FunctionHeader.parse "F(X)" = .ok ⟨function.name, function.params⟩ ∧
      (session.vars.globals.get? "X").isSome = false ∧
      (after.vars.globals.get? "X").isSome = true :=
  ⟨rfl, by decide +kernel, by decide +kernel⟩

end Vimlet
