import Mathlib.Data.Set.Finite.List
import Mathlib.Order.Preorder.Finite
import Vimlet.Proofs.Interpreter.Watch
import Vimlet.Proofs.Namespace.Values
import Vimlet.Recorder

/-!
# Resolution of calls

A name that is called stands for a function, or for a variable with a reference to another name. The
references lead to a function or to a fault after finitely many steps, or they lead back to where
they have been, and then a call by the name ends only because its nesting is limited.
-/

namespace Vimlet

open Engine

variable {σ α : Type}

/-! ### Single steps -/

/-- What a name stands for in a call. -/
inductive Callee where
  | callable (function : Callable)
  | reference (ref : FuncRef)
  /-- There is nothing to call. -/
  | missing (cause : Fault)

/-- The session in which the name of a reference is resolved. -/
def FuncRef.enter (ref : FuncRef) (session : Session σ) : Session σ :=
  match ref.script with
  | none => session
  | some id => session.setScript (some id)

/-- The session after a call through a reference, which a caller goes on in. -/
def FuncRef.leave (ref : FuncRef) (caller after : Session σ) : Session σ :=
  match ref.script with
  | none => after
  | some _ => after.setScript caller.functions.scripts.active

/-- What is done in the script of a reference. -/
def FuncRef.within (ref : FuncRef) (act : Run σ α) : Run σ α := fun session =>
  onLeft (ref.leave session) (act (ref.enter session))

/-- Calls a function that a name stands for. -/
def Callable.invoke (host : Host σ) (engine : Engine σ) (args : List Value) :
    Callable → Run σ Value
  | .builtin _ signature f => do
    checkArguments signature args
    f.apply engine args
  | .host _ signature id => do
    signature.forM (checkArguments · args)
    host.function id args
  | .user function => callUser engine function args

/-- A name that is called, and the session in which it is resolved. -/
structure Query (σ : Type) where
  name : String
  session : Session σ

namespace Query

/-- Functions come before variables, and a variable has to hold a reference. -/
def callee (query : Query σ) : Callee :=
  match query.session.functions.find? query.name with
  | .error cause => .missing cause
  | .ok (some function) => .callable function
  | .ok none =>
    match query.session.vars.find? query.name with
    | .error cause => .missing cause
    | .ok (some (.function ref)) => .reference ref
    | .ok _ => .missing (.functionUndefined query.name)

/-- The name that a reference leads to. -/
def follow (query : Query σ) (ref : FuncRef) : Query σ := ⟨ref.name, ref.enter query.session⟩

/-- The references that are followed from a name one after the other, and where they lead to. -/
inductive Reaches : Query σ → List FuncRef → Query σ → Prop where
  | here (query : Query σ) : Reaches query [] query
  | next {query last ref refs} :
      query.callee = .reference ref → Reaches (query.follow ref) refs last →
        Reaches query (ref :: refs) last

/-- The references lead back to a name in the script in which it was resolved before. -/
def Circular (query : Query σ) : Prop :=
  ∃ before refs again, Reaches query before again ∧ refs ≠ [] ∧ Reaches again refs again

end Query

/-! ### Calls -/

section Calls

variable (host : Host σ) (args : List Value)

theorem callRef_eq (engine : Engine σ) (ref : FuncRef) :
    engine.callRef ref args = ref.within (engine.call ref.name args) := by
  funext session
  unfold FuncRef.within
  cases placed : ref.script with
  | none =>
    have leave_eq : ref.leave session = id := by
      funext after
      simp only [FuncRef.leave, placed, id]
    rw [callRef_of_none placed, leave_eq]
    simp only [FuncRef.enter, placed]
    cases engine.call ref.name args session <;> rfl
  | some id =>
    have leave_eq : ref.leave session = (·.setScript session.functions.scripts.active) := by
      funext after
      simp only [FuncRef.leave, placed]
    rw [callRef_of_some placed, leave_eq]
    simp only [FuncRef.enter, placed]
    rfl

theorem FuncRef.enter_begin (ref : FuncRef) (session : Session σ) :
    ref.enter session.begin = (ref.enter session).begin := by
  unfold enter
  cases ref.script with
  | none => rfl
  | some id =>
    by_cases outermost : session.runs = 0 <;>
      simp [Session.begin, Session.setScript, outermost]

/-- A call by name does what the name stands for. -/
theorem callByName_eq (engine : Engine σ) (query : Query σ) :
    callByName host engine query.name args query.session =
      match query.callee with
      | .callable function => function.invoke host engine args query.session
      | .reference ref => ref.within (engine.call ref.name args) query.session
      | .missing cause => .error (.fault cause) query.session := by
  obtain ⟨name, session⟩ := query
  simp only [callByName, callWith, Run.get_bind, Query.callee]
  rcases session.functions.find? name with cause | _ | function
  · rfl
  · simp only
    rcases session.vars.find? name with cause | _ | value
    · rfl
    · rfl
    · cases value with
      | function ref => exact congrFun (callRef_eq args engine ref) session
      | nil | bool | integer | number | str | list | object => rfl
  · cases function <;> rfl

namespace Query

variable {query last : Query σ} {refs : List FuncRef}

/-- As many levels of nesting as references are used up to follow them. -/
theorem Reaches.call (reaches : Reaches query refs last) (depth : Nat) :
    (ofDepth host (depth + refs.length + 1)).call query.name args query.session =
      refs.foldr FuncRef.within ((ofDepth host (depth + 1)).call last.name args)
        query.session := by
  induction reaches with
  | here query => rfl
  | @next query last ref refs refers _ ih =>
    have called := callByName_eq host args (ofDepth host (depth + refs.length + 1)) query
    rw [refers] at called
    exact called.trans (congrArg (onLeft (ref.leave query.session)) ih)

/-- From a circular name the references lead on to another one. -/
theorem Circular.step (circular : query.Circular) :
    ∃ ref, query.callee = .reference ref ∧ (query.follow ref).Circular := by
  obtain ⟨before, refs, again, reaches, refs_ne, returns⟩ := circular
  cases reaches with
  | here =>
    cases returns with
    | here => exact absurd rfl refs_ne
    | @next _ _ ref refs refers onward =>
      refine ⟨ref, refers, refs, ref :: refs, query, onward, by simp, .next refers onward⟩
  | @next _ _ ref before refers onward =>
    exact ⟨ref, refers, before, refs, again, onward, refs_ne, returns⟩

/-- However deep calls may be nested, a call by a circular name is nested deeper. -/
theorem Circular.call (circular : query.Circular) (depth : Nat) :
    ∃ after, (ofDepth host depth).call query.name args query.session =
      .error .tooDeep after := by
  induction depth generalizing query with
  | zero => exact ⟨query.session, rfl⟩
  | succ depth ih =>
    obtain ⟨ref, refers, onward⟩ := circular.step
    obtain ⟨after, failed⟩ := ih onward
    have called := callByName_eq host args (ofDepth host depth) query
    rw [refers] at called
    exact ⟨_, called.trans (congrArg (onLeft (ref.leave query.session)) failed)⟩

/-! A request resolves its name in the session in which it begins. -/

theorem callee_begin (query : Query σ) :
    callee ⟨query.name, query.session.begin⟩ = query.callee := by
  simp only [callee, Session.begin_functions, Session.begin_vars]

theorem Reaches.begin (reaches : Reaches query refs last) :
    Reaches ⟨query.name, query.session.begin⟩ refs ⟨last.name, last.session.begin⟩ := by
  induction reaches with
  | here query => exact .here _
  | @next query last ref refs refers _ ih =>
    refine .next (query.callee_begin.trans refers) ?_
    rw [follow, ref.enter_begin]
    exact ih

/-- A request for a call by a circular name is refused as nested too deep. -/
theorem Circular.callFunction (circular : query.Circular) (outermost : query.session.runs = 0) :
    ∃ limit after, callFunction host query.name args query.session =
      .error (.fault (.callDepthExceeded limit)) after := by
  obtain ⟨before, refs, again, reaches, refs_ne, returns⟩ := circular
  have circular_begin : Circular ⟨query.name, query.session.begin⟩ :=
    ⟨before, refs, _, reaches.begin, refs_ne, returns.begin⟩
  obtain ⟨after, failed⟩ := circular_begin.call host args maxNesting
  have ended := enclosed_eq_after ((engine host).call query.name args) query.session
  rw [show (engine host).call query.name args query.session.begin = .error .tooDeep after from
    failed] at ended
  exact ⟨_, _, ended.trans (if_pos outermost)⟩

end Query

end Calls

/-! ### Finitely many names -/

def Namespace.values (space : Namespace α) : List α :=
  let ofScoped (store : Scoped α) : List α := store.tables.values.flatMap Table.values
  space.globals.values ++ space.builtins.values ++ ofScoped space.buffers ++
    ofScoped space.windows ++ ofScoped space.scripts ++
    space.frames.flatMap fun frame => frame.bindings.values

theorem Namespace.all_mem_values (space : Namespace α) : space.All (· ∈ space.values) where
  globals value mem := by simp [values, mem]
  builtins value mem := by simp [values, mem]
  buffers table table_mem value mem := by
    simp only [values, List.mem_append, List.mem_flatMap]
    exact .inl (.inl (.inl (.inr ⟨table, table_mem, mem⟩)))
  windows table table_mem value mem := by
    simp only [values, List.mem_append, List.mem_flatMap]
    exact .inl (.inl (.inr ⟨table, table_mem, mem⟩))
  scripts table table_mem value mem := by
    simp only [values, List.mem_append, List.mem_flatMap]
    exact .inl (.inr ⟨table, table_mem, mem⟩)
  frames frame frame_mem value mem := by
    simp only [values, List.mem_append, List.mem_flatMap]
    exact .inr ⟨frame, frame_mem, mem⟩

namespace FuncRef

theorem enter_vars_all {property : Value → Prop} {session : Session σ}
    (all : session.vars.All property) (ref : FuncRef) : (ref.enter session).vars.All property := by
  unfold enter
  split
  · exact all
  · exact all.setScript _

theorem enter_enter (ref other : FuncRef) (session : Session σ) :
    ref.enter (other.enter session) = ref.enter session ∨
      ref.enter (other.enter session) = other.enter session := by
  cases placed : ref.script with
  | none =>
    right
    simp only [enter, placed]
  | some id =>
    left
    simp only [enter, placed]
    cases other.script <;> rfl

def heldIn (session : Session σ) : Set FuncRef := {ref | .function ref ∈ session.vars.values}

end FuncRef

namespace Query

/-- The name that a reference leads to, if there is one, and else the same name. -/
def advance (query : Query σ) : Query σ :=
  match query.callee with
  | .reference ref => query.follow ref
  | _ => query

variable {query : Query σ}

/-- The name and the script are those of references that variables hold, or those at the start. -/
structure Near (start query : Query σ) : Prop where
  name : query.name ∈ insert start.name (Set.image FuncRef.name (FuncRef.heldIn start.session))
  session : query.session ∈ insert start.session
    (Set.image (·.enter start.session) (FuncRef.heldIn start.session))

theorem callee_mem {values : List Value} {ref} (all : query.session.vars.All (· ∈ values))
    (refers : query.callee = .reference ref) : .function ref ∈ values := by
  unfold callee at refers
  split at refers
  · cases refers
  · cases refers
  · split at refers
    · cases refers
    · rename_i found
      cases refers
      exact all.find? found
    · cases refers

theorem Near.follow {start query : Query σ} (near : Near start query) {ref}
    (refers : query.callee = .reference ref) : Near start (query.follow ref) := by
  have start_all := start.session.vars.all_mem_values
  have query_all : query.session.vars.All (· ∈ start.session.vars.values) := by
    obtain same | ⟨other, -, same⟩ := near.session
    · exact same ▸ start_all
    · exact same ▸ FuncRef.enter_vars_all start_all other
  have held : ref ∈ FuncRef.heldIn start.session := callee_mem query_all refers
  refine ⟨.inr ⟨ref, held, rfl⟩, .inr ?_⟩
  obtain same | ⟨other, other_held, same⟩ := near.session
  · exact ⟨ref, held, by rw [Query.follow, same]⟩
  · have entered := ref.enter_enter other start.session
    rw [show other.enter start.session = query.session from same] at entered
    obtain as_ref | as_other := entered
    · exact ⟨ref, held, as_ref.symm⟩
    · exact ⟨other, other_held, same.trans as_other.symm⟩

end Query

end Vimlet
