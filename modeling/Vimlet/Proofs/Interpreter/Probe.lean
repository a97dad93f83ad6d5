import Vimlet.Proofs.Interpreter.Watch

/-!
# Probing the interpreter

A probe is shown every statement that is executed, every user function that is called and every
result that `map` stores. A property of all of these is stated by a probe that stops the run where
it fails.
-/

namespace Vimlet

open Run

variable {σ α : Type}

/-- Something that a run does. -/
inductive Event where
  /-- A statement is executed. -/
  | statement (line : Line)
  /-- A user function is called. -/
  | call (function : UserFunction) (args : List Value)
  /-- The result of a callback of `map` is put into a container. -/
  | store (target : Handle) (value : Value)

/-- What is done before an event. -/
abbrev Probe (σ : Type) := Event → Run σ Unit

/-! ### The probed interpreter -/

/-- Replaces the values of an Object by the results of a callback. -/
def mapEntriesProbed (probe : Probe σ) (engine : Engine σ) (callback : Value) (cell : Nat) :
    List (String × Value) → Run σ Unit
  | [] => return
  | (key, value) :: rest => do
    let result ← runCallback engine callback (.str key) value
    probe (.store (.object cell) result)
    onHeap (do Mem.setObject cell (((← get).object cell).insert key result))
    mapEntriesProbed probe engine callback cell rest

/-- Replaces the elements of a List by the results of a callback, from an index on. -/
def mapItemsProbed (probe : Probe σ) (engine : Engine σ) (callback : Value) (cell index : Nat) :
    List Value → Run σ Unit
  | [] => return
  | item :: rest => do
    let result ← runCallback engine callback (.integer index) item
    if index < (← get).heap.listLength cell then
      probe (.store (.list cell) result)
      onHeap (modify (·.setItem cell index result))
    else throw .internal
    mapItemsProbed probe engine callback cell (index + 1) rest

/-- Replaces the contents of a container by the results of a callback. -/
def mapContainerProbed (probe : Probe σ) (engine : Engine σ) (container callback : Value) :
    Run σ Value := do
  match container with
  | .object cell =>
    mapEntriesProbed probe engine callback cell ((← get).heap.object cell).entries
    return container
  | _ =>
    let cell ← onHeap (Mem.listCell container)
    mapItemsProbed probe engine callback cell 0 ((← get).heap.list cell)
    return container

def Builtin.applyProbed (probe : Probe σ) (engine : Engine σ) (f : Builtin) (args : List Value) :
    Run σ Value :=
  match f, args with
  | .control .map, [target, callback] => mapContainerProbed probe engine target callback
  | f, args => f.apply engine args

def callProbed (host : Host σ) (probe : Probe σ) (engine : Engine σ) :
    String → List Value → Run σ Value :=
  callWith host engine (Builtin.applyProbed probe engine) fun function args => do
    probe (.call function args)
    callUser engine function args

/-- Statements with this role are executed. -/
def Role.executes : Role → Bool
  | .simple | .opens _ => true
  | .branch | .closes _ => false

def walkProbed (host : Host σ) (probe : Probe σ) (engine : Engine σ) :
    Nat → Block → Mode → List Line → Run σ Passage
  | _, block, _, [] =>
    if block = .script then return { rest := [] } else fault (.unexpectedEnd block)
  | 0, block, _, _ => fault (.unexpectedEnd block)
  | fuel + 1, block, mode, line :: rest => do
    checkPatience
    if mode = .execute ∧ (Role.ofKeyword (expandKeyword line.command)).executes then
      probe (.statement line)
    walkLine host engine (walkProbed host probe engine fuel) block mode line rest

/-- The probed engine that allows a number of levels of nesting. -/
def Engine.probed (host : Host σ) (probe : Probe σ) : Nat → Engine σ
  | 0 => exhausted
  | depth + 1 =>
    let inner := probed host probe depth
    { eval := evaluate host inner
      call := callProbed host probe inner
      run := fun lines =>
        discard (walkProbed host probe inner lines.length .script .execute lines) }

/-! ### The probe that does nothing -/

def Probe.idle : Probe σ := fun _ => pure ()

section Idle

variable (engine : Engine σ)

theorem mapEntriesProbed_idle (callback : Value) (cell : Nat) (entries : List (String × Value)) :
    mapEntriesProbed .idle engine callback cell entries =
      mapEntries engine callback cell entries := by
  induction entries with
  | nil => rfl
  | cons entry rest ih => simp only [mapEntriesProbed, mapEntries, Probe.idle, pure_bind, ← ih]

theorem mapItemsProbed_idle (callback : Value) (cell index : Nat) (items : List Value) :
    mapItemsProbed .idle engine callback cell index items =
      mapItems engine callback cell index items := by
  induction items generalizing index with
  | nil => rfl
  | cons item rest ih => simp only [mapItemsProbed, mapItems, Probe.idle, pure_bind, ← ih]

theorem mapContainerProbed_idle (container callback : Value) :
    mapContainerProbed .idle engine container callback =
      mapContainer engine container callback := by
  cases container with
  | object cell => simp only [mapContainerProbed, mapContainer, mapEntriesProbed_idle]
  | nil | bool | integer | number | str | list | function =>
    simp only [mapContainerProbed, mapContainer, mapItemsProbed_idle]

theorem Builtin.applyProbed_idle (f : Builtin) (args : List Value) :
    f.applyProbed .idle engine args = f.apply engine args := by
  unfold Builtin.applyProbed
  split
  · exact mapContainerProbed_idle engine _ _
  · rfl

theorem callProbed_idle (host : Host σ) :
    callProbed host .idle engine = callByName host engine := by
  have builtin : Builtin.applyProbed .idle engine = Builtin.apply engine :=
    funext₂ (Builtin.applyProbed_idle engine)
  rw [callProbed, builtin]
  rfl

theorem walkProbed_idle (host : Host σ) (fuel : Nat) :
    walkProbed host .idle engine fuel = walkWithin host engine fuel := by
  induction fuel with
  | zero =>
    funext block mode lines
    cases lines <;> rfl
  | succ fuel ih =>
    funext block mode lines
    cases lines with
    | nil => rfl
    | cons line rest =>
      simp only [walkProbed, walkWithin, ih, Probe.idle, ite_self, pure_bind]

theorem Engine.probed_idle (host : Host σ) (depth : Nat) :
    Engine.probed host .idle depth = Engine.ofDepth host depth := by
  induction depth with
  | zero => rfl
  | succ depth ih =>
    simp only [Engine.probed, Engine.ofDepth, ih, callProbed_idle, walkProbed_idle]
    rfl

end Idle

/-! ### Properties of all events -/

open Classical in
/-- Stops the run, with a message in its trace, at an event without a property. -/
noncomputable def Probe.stopping (property : Event → Session σ → Prop) (message : String) :
    Probe σ :=
  fun event there =>
    if property event there then .ok () there
    else .error .internal { there with trace := message :: there.trace }

variable {property : Event → Session σ → Prop}

theorem Probe.stopping_of_property {event there} (has : property event there) (message : String) :
    Probe.stopping property message event there = .ok () there := if_pos has

theorem Probe.stopping_of_not {event there} (lacks : ¬property event there) (message : String) :
    Probe.stopping property message event there =
      .error .internal { there with trace := message :: there.trace } := if_neg lacks

theorem Probe.stopping_eq (property : Event → Session σ → Prop)
    [∀ event there, Decidable (property event there)] (message : String) :
    Probe.stopping property message = fun event there =>
      if property event there then .ok () there
      else .error .internal { there with trace := message :: there.trace } := by
  funext event there
  unfold stopping
  congr

/-- A computation ended in the way in which probes stop it. -/
def isStopped : Ending σ α → Bool
  | .error .internal _ => true
  | _ => false

/-- A property of all events, and of the sessions they find, while something is done by an engine: a
run that is stopped at events without it goes the same way. -/
def EveryEvent (host : Host σ) (depth : Nat) (act : Engine σ → Run σ α) (session : Session σ)
    (property : Event → Session σ → Prop) : Prop :=
  ∀ message, act (Engine.probed host (.stopping property message) depth) session =
    act (Engine.ofDepth host depth) session

end Vimlet
