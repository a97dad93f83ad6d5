import Vimlet.Proofs.Session.Parameters
import Vimlet.Proofs.Session.Resolution
import Vimlet.Proofs.Statement.Definition

/-!
# Recursion

A function whose name is not Local is bound outside of the frames. Calls and loops only enter and
leave frames, so its body finds it there, however deep the calls are nested. A function with a Local
name is bound in the Global scope if it is defined outside of all functions, and there its own body
does not look.
-/

namespace Vimlet

open Namespace FunctionHeader

variable {σ α : Type}
variable {location : Location} {host : Host σ} {name : String} {session : Session σ}
  {post : Heap → α → Prop} {regime : Regime σ}

/-! ### Names that are not Local -/

theorem Scope.ofSigil?_ne_local (sigil : Char) : Scope.ofSigil? sigil ≠ some .local := by
  unfold ofSigil?
  split <;> simp

theorem isLocal_of_resolve {bare} (resolved : resolve name = .ok (.local, bare)) :
    isLocal name := by
  unfold resolve at resolved
  split at resolved
  · rename_i sigil rest _
    cases found : Scope.ofSigil? sigil with
    | none => simp [found] at resolved
    | some scope =>
      simp only [found, Except.ok.injEq, Prod.mk.injEq] at resolved
      exact absurd (resolved.1 ▸ found) (Scope.ofSigil?_ne_local sigil)
  · split at resolved
    · cases resolved
    · split at resolved
      · cases resolved
      · simp_all [isLocal]

namespace Namespace

/-- The same identities are active. -/
structure SameIdentities (space other : Namespace α) : Prop where
  buffers : space.buffers.active = other.buffers.active
  windows : space.windows.active = other.windows.active
  scripts : space.scripts.active = other.scripts.active

/-- A name that is not Local is bound outside of the frames, and looked up there while the same
identities are active. -/
theorem find?_of_location {other} (shared : isLocal name = false)
    (located : other.location name = .ok location) :
    location.isShared ∧ ∀ space : Namespace α, space.SameIdentities other →
      space.find? name = .ok (space.valueAt? location) := by
  unfold Namespace.location at located
  unfold find?
  cases resolved : resolve name with
  | error cause =>
    rw [resolved] at located
    cases located
  | ok place =>
    obtain ⟨scope, bare⟩ := place
    rw [resolved] at located
    cases scope with
    | «local» => simp [isLocal_of_resolve resolved] at shared
    | builtin => cases located
    | global =>
      cases located
      exact ⟨rfl, fun _ _ => rfl⟩
    | buffer =>
      obtain ⟨id, active, rfl⟩ := Scoped.exists_of_located located
      exact ⟨rfl, fun space same => Scoped.get?_of_activeId same.buffers active bare⟩
    | window =>
      obtain ⟨id, active, rfl⟩ := Scoped.exists_of_located located
      exact ⟨rfl, fun space same => Scoped.get?_of_activeId same.windows active bare⟩
    | script =>
      obtain ⟨id, active, rfl⟩ := Scoped.exists_of_located located
      exact ⟨rfl, fun space same => Scoped.get?_of_activeId same.scripts active bare⟩

end Namespace

/-! ### Bound functions -/

/-- A function is bound in a location. -/
def Session.Binds (session : Session σ) (location : Location) (function : UserFunction) : Prop :=
  session.functions.valueAt? location = some (.user function)

/-- The handlers of a host leave a function bound. -/
structure Host.KeepsBound (host : Host σ) (location : Location) (function : UserFunction) :
    Prop where
  command (id : Nat) (range : LineRange) (bang : Bool) (params : String) (session : Session σ) :
    session.Binds location function →
    (left (host.command id range bang params session)).Binds location function
  function (id : Nat) (args : List Value) (session : Session σ) :
    session.Binds location function →
    (left (host.function id args session)).Binds location function

/-- Where a `function` statement binds its function, as far as its header tells. -/
def Event.target? (event : Event) (there : Session σ) : Option Location :=
  match event with
  | .statement line =>
    if line.role = .opens .function then do
      let header ← (parse line.params).toOption
      (there.functions.location header.name).toOption
    else none
  | _ => none

theorem Event.target?_of_header {line} (role : line.role = .opens .function) {header}
    (parsed : parse line.params = .ok header) (there : Session σ) :
    (Event.statement line).target? there = (there.functions.location header.name).toOption := by
  simp only [target?, if_pos role, parsed]
  rfl

theorem bindAll_keepsFunctions (bound : List (String × Value)) :
    KeepsFunctions (bindAll Run.declare bound : Run σ Unit) := by
  induction bound with
  | nil => exact .pure ()
  | cons first rest ih =>
    refine .bind (fun session => ?_) fun _ => ih
    simp only [Run.declare, Run.get_bind]
    cases session.vars.declare first.1 first.2 <;> rfl

/-- A function stays bound in a location, in which no other one is defined. -/
def binding (location : Location) (function : UserFunction) : Regime σ where
  holds there := there.Binds location function
  lasts before after := before.Binds location function → after.Binds location function
  owns _ _ := True
  guarded := False
  lenient := False
  permits event there := event.target? there ≠ some location

namespace binding

variable {function : UserFunction}

theorem lasts_of_functions {before after : Session σ}
    (functions : after.functions = before.functions) :
    (binding location function).lasts before after := by
  intro bound
  rw [Session.Binds, functions]
  exact bound

/-- A layer that leaves what the location holds. -/
theorem around {inner} {leave : Session σ → Session σ}
    (held : (binding location function).holds session)
    (enters : inner.functions.valueAt? location = session.functions.valueAt? location)
    (leaves : ∀ after : Session σ,
      (leave after).functions.valueAt? location = after.functions.valueAt? location) :
    (binding location function).Around session inner leave where
  holds := enters.trans held
  lasts lasts bound := (leaves _).trans (lasts (enters.trans bound))

theorem ends {ending} (bound : (left ending).Binds location function)
    (always : ∀ heap value, post heap value) :
    (binding location function).Ends session post ending := by
  cases ending with
  | ok value after => exact ⟨⟨fun _ => bound, bound, fun _ => trivial⟩, always _ _⟩
  | error stop after => exact ⟨⟨fun _ => bound, bound, fun _ => trivial⟩, fun _ _ => trivial⟩

theorem kept (shared : location.isShared) (keeps : host.KeepsBound location function)
    (message : String) :
    (binding location function).Kept host
      (.stopping (fun event there => event.target? there ≠ some location) message)
      (.stopping (fun event there => event.target? there ≠ some location) message) where
  refl _ bound := bound
  trans before after bound := after (before bound)
  lasts_holds lasts held := lasts held
  owns_in unguarded := nomatch unguarded
  owns_contents _ _ _ _ := trivial
  fits_contents _ _ unguarded := nomatch unguarded
  write _ _ _ := lasts_of_functions rfl
  make _ _ _ := ⟨lasts_of_functions rfl, trivial⟩
  echo _ _ := lasts_of_functions rfl
  trace _ _ := lasts_of_functions rfl
  patience _ _ := lasts_of_functions rfl
  line _ _ := lasts_of_functions rfl
  event _ _ := Regime.stopping_event .rfl id (lasts_of_functions rfl)
  store _ unguarded := nomatch unguarded
  script _ held :=
    around held (valueAt?_setScript _ _ _) fun _ => valueAt?_setScript _ _ _
  callback held _ _ := around held rfl fun _ => rfl
  enclosed {session} held := around held (by rw [session.begin_functions]) fun _ => rfl
  unwound {session} held _ :=
    around held (by rw [session.begin_functions]) fun _ => valueAt?_withFrames shared _ _
  silent held := around held rfl fun _ => rfl
  unsilent held := around held rfl fun _ => rfl
  loop held := around held rfl fun _ => rfl
  frame {session _ _ _ _} _ _ _ held _ := by
    refine around held ?_ fun _ => valueAt?_left shared _
    rw [left_bindPattern, bindAll_keepsFunctions]
    exact valueAt?_withFrames shared _ _
  call _ held _ _ _ := by
    refine around held ?_ fun _ => valueAt?_left shared _
    rw [bindAll_keepsFunctions]
    exact valueAt?_withFrames shared _ _
  assign _ _ _ _ _ := lasts_of_functions rfl
  unlet _ _ _ _ _ := lasts_of_functions rfl
  define {session there _ header _ _} permitted role parsed same _ inserted bound := by
    -- the functions are still those that the statement was seen with
    have other : session.functions.location header.name ≠ .ok location := by
      intro located
      rw [same] at located
      apply permitted
      rw [Event.target?_of_header role parsed, located]
      rfl
    exact (valueAt?_of_insert inserted other).trans bound
  command _ _ _ held := ends (keeps.command _ _ _ _ _ held) fun _ _ => trivial
  function id held _ := ends (keeps.function id _ _ held) fun _ _ => trivial

end binding

/-! ### Names that are called -/

/-- The probed engine that also asks for each name that is called. -/
def Engine.asking (host : Host σ) (probe : Probe σ) (ask : String → Run σ Unit) : Nat → Engine σ
  | 0 => exhausted
  | depth + 1 =>
    let inner := asking host probe ask depth
    { eval := evaluate host inner
      call := fun name args => do
        ask name
        callProbed host probe inner name args
      run := fun lines =>
        discard (walkProbed host probe inner lines.length .script .execute lines) }

open Classical in
/-- Stops the run, with a message in its trace, at a call by a name without a property. -/
noncomputable def stoppingCalls (property : String → Session σ → Prop) (message : String)
    (name : String) : Run σ Unit := fun there =>
  if property name there then .ok () there
  else .error .internal { there with trace := message :: there.trace }

/-- A property of all names that are called by an engine, and of the sessions they are called in,
beside one of all events: a run that is stopped where they fail goes the same way. -/
def EveryCall (host : Host σ) (depth : Nat) (act : Engine σ → Run σ α) (session : Session σ)
    (events : Event → Session σ → Prop) (calls : String → Session σ → Prop) : Prop :=
  ∀ message,
    act (Engine.asking host (.stopping events message) (stoppingCalls calls message) depth)
        session =
      act (Engine.ofDepth host depth) session

/-- An engine that asks for names goes the same way if each of them passes where the regime holds.
-/
theorem Regime.Kept.asking {probe probe'} (kept : regime.Kept host probe probe')
    {ask : String → Run σ Unit}
    (passes : ∀ name session, regime.holds session → ask name session = .ok () session)
    (depth : Nat) :
    regime.Engines (Engine.probed host probe depth) (Engine.asking host probe' ask depth) := by
  induction depth with
  | zero => exact kept.engines_zero
  | succ depth ih =>
    refine ⟨fun _ text => kept.evaluate ih text, fun session name args owned held => ?_,
      fun _ lines => kept.discarded (kept.walkProbed ih _ _ _ lines)⟩
    have asked : (Engine.asking host probe' ask (depth + 1)).call name args session =
        Vimlet.callProbed host probe' (Engine.asking host probe' ask depth) name args session :=
      Run.bind_ok (passes name session held)
    rw [asked]
    exact kept.callProbed ih name owned held

/-- Names that are called have a property if it follows from a regime that allows for the events.
-/
theorem EveryEvent.everyCall {depth} {act : Engine σ → Run σ α} {events : Event → Session σ → Prop}
    {calls : String → Session σ → Prop} (every : EveryEvent host depth act session events)
    (strict : ¬regime.lenient)
    (kept : ∀ message, regime.Kept host (.stopping events message) (.stopping events message))
    (acts : ∀ {engine engine'}, regime.Engines engine engine' →
      regime.Agrees session post (act engine) (act engine')) (held : regime.holds session)
    (fine : ∀ name there, regime.holds there → calls name there) :
    EveryCall host depth act session events calls := by
  intro message
  have passes (name : String) (there : Session σ) (holds : regime.holds there) :
      stoppingCalls calls message name there = .ok () there := if_pos (fine name there holds)
  have alike := (acts ((kept message).asking passes depth) held).1
  have same := alike.resolve_right fun stopped => strict stopped.1
  exact same.symm.trans (every message)

/-! ### Functions that call themselves -/

/-- A function whose name is not Local can call itself by it: as long as no other function is
defined there, the name stands for the function in every call that finds the same identities active,
however deep it is nested. -/
theorem callUser_recurses {host : Host σ} {line : Line} {rest left : List Line}
    {before after : Session σ} {function : UserFunction} {location : Location}
    (defines : Defines line rest before function location left after)
    (shared : isLocal function.name = false) (keeps : host.KeepsBound location function)
    {session : Session σ} (bound : session.Binds location function) (args : List Value)
    (depth : Nat)
    (spared : EveryEvent host depth (callUser · function args) session fun event there =>
      event.target? there ≠ some location) :
    EveryCall host depth (callUser · function args) session
      (fun event there => event.target? there ≠ some location)
      fun name there => name = function.name →
        there.functions.SameIdentities before.functions →
        Query.callee ⟨name, there⟩ = .callable (.user function) := by
  obtain ⟨location_shared, looked_up⟩ := Namespace.find?_of_location shared defines.found
  have kept := binding.kept location_shared keeps
  have permitted : (binding location function).permits (.call function args) session := nofun
  refine spared.everyCall id kept
    (fun engines => (kept "").callUser engines permitted fun _ _ => trivial) bound ?_
  rintro name there held rfl same
  have found : there.functions.find? function.name = .ok (some (.user function)) :=
    (looked_up there.functions same).trans (congrArg _ held)
  simp only [Query.callee, found]

theorem Recorder.host_keepsBound (location : Location) (function : UserFunction) :
    Recorder.host.KeepsBound location function :=
  ⟨fun _ _ _ _ _ bound => bound, fun _ _ _ bound => bound⟩

/-- A function that calls itself inside of a loop. -/
theorem callUser_recurses_factorial :
    let line (number : Nat) (command params : String) : Line :=
      ⟨.current, command, false, params, number⟩
    let head := line 1 "function" "Fact(n)"
    let body := [line 2 "let" "p = 1", line 3 "for" "i in [n]", line 4 "if" "i > 1",
      line 5 "let" "p = i * Fact(i - 1)", line 6 "endif" "", line 7 "endfor" "",
      line 8 "return" "p"]
    let rest := body ++ [line 9 "endfunction" ""]
    let function : UserFunction := ⟨"Fact", ["n"], body⟩
    let before : Session Recorder := { Session.new {} 5.0 with runs := 1, patience := 60 }
    let after := Session.noted (definitionNote function)
      { before with
        patience := 52
        currentLine := some head
        functions := before.functions.put (.user function) (.global "Fact") }
    Defines head rest before function (.global "Fact") [] after ∧
      (match callUser (Engine.ofDepth Recorder.host 14) function [.integer 3] after with
        | .ok (.integer 6) _ => true
        | _ => false) = true ∧
      EveryCall Recorder.host 14 (callUser · function [.integer 3]) after
        (fun event there => event.target? there ≠ some (.global "Fact"))
        fun name there => name = "Fact" →
          there.functions.SameIdentities before.functions →
          Query.callee ⟨name, there⟩ = .callable (.user function) := by
  intro line head body rest function before after
  have parsed : parse head.params = .ok ⟨"Fact", ["n"]⟩ := by
    change parse "Fact(n)" = _
    rfl
  have closed : ClosedBy .function rest body (line 9 "endfunction" "") [] :=
    ⟨rfl, .simple rfl (.block rfl rfl (.block rfl rfl (.simple rfl (.done _)) (.done _))
      (.simple rfl (.done _))), rfl⟩
  have located : before.functions.location "Fact" = .ok (.global "Fact") := by
    have resolved : resolve "Fact" = .ok (.global, "Fact") := rfl
    simp only [Namespace.location, resolved]
    rfl
  have defines : Defines head rest before function (.global "Fact") [] after :=
    Defines.of_closed before parsed closed located
  have bound : after.Binds (.global "Fact") function :=
    (defines.others (.global "Fact")).trans (if_pos rfl)
  have unstopped : isStopped (callUser (Engine.probed Recorder.host
      (.stopping (fun event there => event.target? there ≠ some (.global "Fact")) "") 14) function
      [.integer 3] after) = false := by
    rw [Probe.stopping_eq]
    decide +kernel
  exact ⟨defines, by decide +kernel, callUser_recurses defines (by decide +kernel)
    (Recorder.host_keepsBound _ _) bound [.integer 3] 14
    (function.everyEvent_of_unstopped [.integer 3] "" unstopped)⟩

/-- A function with a Local name that is defined outside of all functions is not found in its own
body. -/
theorem perform_misses_local_recursion :
    let source :=
      "function fact(n)\n  if n < 2\n    return 1\n  endif\n  return n * fact(n - 1)\n" ++
        "endfunction\nlet g:x = fact(3)"
    (match (Request.run source).perform Recorder.host (Session.new {} 5.0) with
      | .error (.fault (.functionUndefined "fact")) _ => true
      | _ => false) = true := by
  decide +kernel

end Vimlet
