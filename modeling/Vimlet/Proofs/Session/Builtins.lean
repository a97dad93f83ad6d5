import Vimlet.Proofs.Interpreter.Tracking
import Vimlet.Proofs.Session.Shelter
import Vimlet.Proofs.Table

/-!
# Builtin variables are only read

Only a callback given as text writes to the Builtin scope: it finds its key and its value in two
builtin variables. When it has ended, both have their old values again. Where they had none they are
left behind with Nil.
-/

namespace Vimlet

open Namespace

variable {σ : Type}

/-- The builtin variables that a callback given as text reads. -/
def callbackVariables : List String := ["key", "val"]

namespace Session

/-- Every builtin variable has the value that it had. Only those of callbacks may be Nil instead of
unbound. -/
def BuiltinsKept (before after : Session σ) : Prop :=
  ∀ name, after.vars.builtins.get? name = before.vars.builtins.get? name ∨
    name ∈ callbackVariables ∧ before.vars.builtins.get? name = none ∧
      after.vars.builtins.get? name = some .nil

namespace BuiltinsKept

variable {before after : Session σ}

theorem of_eq (same : after.vars.builtins = before.vars.builtins) :
    before.BuiltinsKept after := fun _ => .inl (by rw [same])

theorem trans {first second third : Session σ} (before : first.BuiltinsKept second)
    (after : second.BuiltinsKept third) : first.BuiltinsKept third := by
  intro name
  obtain same | ⟨callback, unbound, nil⟩ := before name
  · obtain same' | ⟨callback, unbound, nil⟩ := after name
    · exact .inl (same'.trans same)
    · exact .inr ⟨callback, same ▸ unbound, nil⟩
  · obtain same' | ⟨_, unbound', _⟩ := after name
    · exact .inr ⟨callback, unbound, same'.trans nil⟩
    · rw [nil] at unbound'
      cases unbound'

/-- Only the tables of builtin variables matter. -/
theorem congr {before' after' : Session σ} (kept : before.BuiltinsKept after)
    (same : before'.vars.builtins = before.vars.builtins)
    (same' : after'.vars.builtins = after.vars.builtins) : before'.BuiltinsKept after' :=
  ((of_eq same.symm).trans kept).trans (of_eq same')

/-- A builtin variable that is bound, or that no callback reads, is the same afterwards. -/
theorem get?_eq (kept : before.BuiltinsKept after) {name}
    (known : name ∉ callbackVariables ∨ (before.vars.builtins.get? name).isSome) :
    after.vars.builtins.get? name = before.vars.builtins.get? name := by
  obtain same | ⟨callback, unbound, _⟩ := kept name
  · exact same
  · obtain other | bound := known
    · exact absurd callback other
    · rw [unbound] at bound
      cases bound

end BuiltinsKept

theorem builtins_setCallback (session : Session σ) (key value : Value) (name : String) :
    (session.setCallback key value).vars.builtins.get? name =
      if name = "val" then some value else if name = "key" then some key
      else session.vars.builtins.get? name := by
  simp only [setCallback, insertBuiltin, Table.get?_insert]

theorem builtins_setCallback_of_other (session : Session σ) (key value : Value) {name}
    (other : name ∉ callbackVariables) :
    (session.setCallback key value).vars.builtins.get? name =
      session.vars.builtins.get? name := by
  simp only [callbackVariables, List.mem_cons, List.not_mem_nil, or_false, not_or] at other
  rw [builtins_setCallback, if_neg other.2, if_neg other.1]

/-- A callback puts back what it has found, or Nil in place of nothing. -/
theorem BuiltinsKept.callback {session after : Session σ} {key value}
    (kept : (session.setCallback key value).BuiltinsKept after) :
    session.BuiltinsKept (after.setCallback (session.builtin "key") (session.builtin "val")) := by
  intro name
  have restored {saved : String} (callback : saved ∈ callbackVariables) :
      some (session.builtin saved) = session.vars.builtins.get? saved ∨
        saved ∈ callbackVariables ∧ session.vars.builtins.get? saved = none ∧
          some (session.builtin saved) = some .nil := by
    unfold builtin
    cases session.vars.builtins.get? saved with
    | some old => exact .inl rfl
    | none => exact .inr ⟨callback, rfl, rfl⟩
  by_cases other : name ∉ callbackVariables
  · rw [builtins_setCallback_of_other _ _ _ other, kept.get?_eq (.inl other),
      builtins_setCallback_of_other _ _ _ other]
    exact .inl rfl
  · have callback := not_not.mp other
    rw [builtins_setCallback]
    obtain rfl | rfl : name = "key" ∨ name = "val" := by simpa [callbackVariables] using callback
    · rw [if_neg (by decide), if_pos rfl]
      exact restored callback
    · rw [if_pos rfl]
      exact restored callback

end Session

@[simp]
theorem Namespace.builtins_left {α : Type} (space : Namespace α) :
    (space.leave?.getD space).builtins = space.builtins := by
  unfold leave?
  split <;> rfl

/-- The handlers of a host register no builtin variables. -/
structure Host.KeepsBuiltins (host : Host σ) : Prop where
  command (id : Nat) (range : LineRange) (bang : Bool) (params : String) :
    Kept Session.BuiltinsKept (host.command id range bang params)
  function (id : Nat) (args : List Value) : Kept Session.BuiltinsKept (host.function id args)

namespace Host.KeepsBuiltins

variable {host : Host σ} (keeps : host.KeepsBuiltins)
include keeps

theorem lasting : WalkLasting host Session.BuiltinsKept where
  refl _ := .of_eq rfl
  trans := .trans
  heap _ _ := .of_eq rfl
  echo _ _ := .of_eq rfl
  trace _ _ := .of_eq rfl
  patience _ _ := .of_eq rfl
  line _ _ := .of_eq rfl
  assign inserted := .of_eq (insert_updated inserted).builtins
  declare declared := .of_eq (declare_updated declared).builtins
  unlet removed := .of_eq (remove_updated removed).builtins
  define _ := .of_eq rfl
  script _ kept := kept.congr rfl rfl
  callback _ _ kept := kept.callback
  enclosed {session _} kept := kept.congr (by rw [session.begin_vars]) rfl
  unwound {session _} _ kept := kept.congr (by rw [session.begin_vars]) rfl
  call _ kept := kept.congr rfl (builtins_left _)
  silent kept := kept.congr rfl rfl
  unsilent kept := kept.congr rfl rfl
  loop kept := kept.congr rfl rfl
  frame kept := kept.congr rfl (builtins_left _)
  command := keeps.command
  function := keeps.function

/-- A callback keeps them as well, at any depth of nesting. -/
theorem runCallback (depth : Nat) (callback key value : Value) :
    Kept Session.BuiltinsKept (runCallback (Engine.ofDepth host depth) callback key value) := by
  have lasting := keeps.lasting
  exact (lasting.congruence.steps []).runCallback (lasting.engine depth) callback key value

/-- While a request is met, the variables of callbacks are the only builtin ones that change. -/
theorem steady (start : Session σ) :
    Steady host Session.BuiltinsKept fun _ session => ∀ name, name ∉ callbackVariables →
      session.vars.builtins.get? name = start.vars.builtins.get? name where
  lasting := keeps.lasting
  lasts_holds kept holds name other := (kept.get?_eq (.inl other)).trans (holds name other)
  script _ holds := holds
  callback {_ session} key value holds name other :=
    (session.builtins_setCallback_of_other key value other).trans (holds name other)
  start {_ session} holds name other := by
    rw [session.begin_vars]
    exact holds name other
  call _ holds := holds
  silent holds := holds
  unsilent holds := holds
  loop holds := holds
  condition holds := holds
  iteration holds := holds

end Host.KeepsBuiltins

theorem Recorder.host_keepsBuiltins : Recorder.host.KeepsBuiltins where
  command _ _ _ _ _ := .of_eq rfl
  function _ _ _ := .of_eq rfl

/-- However a request ends, and at every statement in between, builtin variables have the values
they had, except that the two of callbacks may be left with Nil where they were unbound. Every
callback puts back what it has found. -/
theorem perform_keeps_builtins {host : Host σ} (keeps : host.KeepsBuiltins) (request : Request)
    (session : Session σ) :
    session.BuiltinsKept (left (request.perform host session)) ∧
      (request.EveryLine host session fun _ _ there => ∀ name, name ∉ callbackVariables →
        there.vars.builtins.get? name = session.vars.builtins.get? name) ∧
      ∀ (depth : Nat) (callback key value : Value) (there : Session σ), there.BuiltinsKept
        (left (runCallback (Engine.ofDepth host depth) callback key value there)) := by
  refine ⟨keeps.lasting.perform request session, ?_, keeps.runCallback⟩
  refine (keeps.steady session).everyLine (fun _ _ _ holds => holds) request fun name _ => ?_
  rw [session.begin_vars]

/-- A callback that fails inside of another one. -/
theorem perform_keeps_builtins_nested :
    let session : Session Recorder := Session.new {} 5.0
    let request : Request := .run "call map([1], 'map([2], \"v:val + nosuch\")')"
    (match request.perform Recorder.host session with
      | .error (.fault (.variableUndefined "nosuch")) _ => true
      | _ => false) = true ∧
      session.BuiltinsKept (left (request.perform Recorder.host session)) :=
  ⟨by decide +kernel, (perform_keeps_builtins Recorder.host_keepsBuiltins _ _).1⟩

/-- In a new session the variables of callbacks are unbound, and the first callback leaves them
bound to Nil. -/
theorem perform_leaves_callback_variables :
    let session : Session Recorder := Session.new {} 5.0
    let after := left ((Request.run "call map([1], 'v:val')").perform Recorder.host session)
    ∀ name ∈ callbackVariables, session.vars.builtins.contains name = false ∧
      (match after.vars.builtins.get? name with
        | some .nil => true
        | _ => false) = true := by
  decide +kernel

end Vimlet
