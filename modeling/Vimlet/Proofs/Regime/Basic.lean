import Vimlet.Proofs.Interpreter.Probe
import Vimlet.Proofs.Statement.Extent
import Vimlet.Proofs.Value.Changes

/-!
# Regimes

A regime says what runs keep up: an invariant of sessions, a relation between the sessions before
and after, and which values belong to a heap. If every step and every layer of the interpreter keeps
to a regime, then so does everything that it runs, and two probes that agree where the invariant
holds cannot be told apart. In a lenient regime the first probe may also stop the run where the
second one does not.
-/

namespace Vimlet

variable {σ α β : Type}
variable {ending ending' : Ending σ α} {session before after inner : Session σ} {heap : Heap}
  {value : Value} {post weaker : Heap → α → Prop} {act act' : Run σ α} {next next' : α → Run σ β}

/-- A `for` statement with this line binds the names of a pattern. -/
def Line.Binds (line : Line) (pattern : Pattern) : Prop :=
  ∃ header, LoopHeader.parse line.params = .ok header ∧ Pattern.parse header.pattern = .ok pattern

/-- Keywords of simple statements that are not commands. -/
def simpleKeywords : List String :=
  ["let", "silent", "unsilent", "execute", "finish", "exit", "return", "break", "continue"]

/-- What runs keep up. -/
structure Regime (σ : Type) where
  /-- What is true of every session. -/
  holds : Session σ → Prop
  /-- What is true of the sessions before and after. -/
  lasts : Session σ → Session σ → Prop
  /-- A value belongs to a heap. -/
  owns : Heap → Value → Prop
  /-- No container is put directly into itself. -/
  guarded : Prop
  /-- The first probe may stop the run where the second one does not. -/
  lenient : Prop
  /-- An event may come about in a session. -/
  permits : Event → Session σ → Prop

namespace Regime

variable (regime : Regime σ)
variable {values : List Value}

/-- All values belong to a heap. -/
def Owned (heap : Heap) (values : List Value) : Prop := ∀ value ∈ values, regime.owns heap value

/-- A value may be put into a container. -/
def Fits (handle : Handle) (value : Value) : Prop := regime.guarded → value ≠ handle.value

/-- All values belong to a heap and may be put into a container of it. -/
def Storable (heap : Heap) (handle : Handle) (values : List Value) : Prop :=
  ∀ value ∈ values, regime.owns heap value ∧ regime.Fits handle value

/-- What is true after something that keeps to the regime. -/
structure Leads (before after : Session σ) : Prop where
  lasts : regime.lasts before after
  holds : regime.holds after
  owns {value : Value} : regime.owns before.heap value → regime.owns after.heap value

/-- Something ends in keeping with the regime, and a result has a property. -/
def Ends (session : Session σ) (post : Heap → α → Prop) : Ending σ α → Prop
  | .ok value after => regime.Leads session after ∧ post after.heap value
  | .error stop after => regime.Leads session after ∧
      ∀ value, stop = .returning value → regime.owns after.heap value

/-- Two computations end in the same way, or the first one was stopped. -/
def Alike (ending ending' : Ending σ α) : Prop :=
  ending = ending' ∨ regime.lenient ∧ ∃ after, ending = .error .internal after

/-- Two computations go the same way in a session, and keep to the regime. -/
def Agrees (session : Session σ) (post : Heap → α → Prop) (act act' : Run σ α) : Prop :=
  regime.holds session →
    regime.Alike (act session) (act' session) ∧ regime.Ends session post (act' session)

/-- Two computations agree, whatever they give. -/
abbrev Accords (session : Session σ) (act act' : Run σ α) : Prop :=
  regime.Agrees session (fun _ _ => True) act act'

/-- A computation keeps to the regime. -/
abbrev Complies (session : Session σ) (post : Heap → α → Prop) (act : Run σ α) : Prop :=
  regime.Agrees session post act act

/-- What lasts inside of a layer lasts around it. -/
structure Around (session inner : Session σ) (leave : Session σ → Session σ) : Prop where
  holds : regime.holds inner
  lasts {after : Session σ} : regime.lasts inner after → regime.lasts session (leave after)

/-- The steps and layers of the interpreter keep to a regime, under two probes that agree. -/
structure Kept (host : Host σ) (probe probe' : Probe σ) : Prop where
  refl (session : Session σ) : regime.lasts session session
  trans {first second third} : regime.lasts first second →
    regime.lasts second third → regime.lasts first third
  lasts_holds {before after : Session σ} : regime.lasts before after → regime.holds before →
    regime.holds after
  lasts_owns {before after : Session σ} {value} : regime.lasts before after →
    regime.holds before → regime.owns before.heap value → regime.owns after.heap value := by
    intros; trivial
  owns_scalar {heap : Heap} {value} : value.handle? = none → regime.owns heap value := by
    intros; trivial
  owns_in {heap : Heap} {value} : regime.guarded → regime.owns heap value → value.In heap
  owns_contents {session : Session σ} (handle : Handle) : regime.holds session →
    regime.Owned session.heap (session.heap.contents handle)
  owns_variable {session name value} : regime.holds session →
    session.vars.find? name = .ok (some value) → regime.owns session.heap value := by
    intros; trivial
  owns_option {session name value} : regime.holds session →
    host.option name session.host = .ok value → regime.owns session.heap value := by intros; trivial
  fits_contents {session handle value} : regime.holds session →
    value ∈ session.heap.contents handle → regime.Fits handle value
  write {session handle heap} : regime.holds session → session.heap.Writes handle heap →
    regime.Storable session.heap handle (heap.contents handle) →
    regime.lasts session { session with heap }
  make {session handle heap} : regime.holds session →
    session.heap.Makes handle heap → regime.Owned session.heap (heap.contents handle) →
    regime.lasts session { session with heap } ∧ regime.owns heap handle.value
  echo (session : Session σ) (message : String) :
    regime.lasts session { session with host := host.echo message session.host }
  trace (session : Session σ) (trace : List String) : regime.lasts session { session with trace }
  patience (session : Session σ) (patience : Nat) : regime.lasts session { session with patience }
  line (session : Session σ) (line : Line) :
    regime.lasts session { session with currentLine := some line }
  /-- The probes agree: they let an event pass that is permitted, or they stop the run. -/
  event {session : Session σ} (event : Event) : regime.holds session →
    regime.Alike (probe event session) (probe' event session) ∧
      (probe' event session = .ok () session ∧ regime.permits event session ∨
        ∃ after, probe' event session = .error .internal after ∧ regime.lasts session after)
  store {there target value} :
    regime.permits (.store target value) there → regime.Fits target value
  script {session : Session σ} (id : ScopeId) : regime.holds session →
    regime.Around session (session.setScript (some id))
      (·.setScript session.functions.scripts.active)
  callback {session : Session σ} {key value} : regime.holds session →
    regime.owns session.heap key → regime.owns session.heap value →
    regime.Around session (session.setCallback key value)
      (·.setCallback (session.builtin "key") (session.builtin "val"))
  enclosed {session : Session σ} : regime.holds session →
    regime.Around session session.begin fun after => { after with runs := session.runs }
  unwound {session : Session σ} : regime.holds session → session.runs = 0 →
    regime.Around session session.begin fun after =>
      { after.unwind session.vars.depth session.functions.depth with runs := session.runs }
  silent {session : Session σ} : regime.holds session →
    regime.Around session (session.setSilence host (session.silence + 1)) fun after =>
      after.setSilence host (after.silence - 1)
  unsilent {session : Session σ} : regime.holds session →
    regime.Around session (session.setSilence host 0) (·.setSilence host session.silence)
  loop {session : Session σ} : regime.holds session →
    regime.Around session session.enterLoop Session.leaveLoop
  frame {session there line pattern item} :
    regime.permits (.statement line) there → line.role = .opens .forLoop → line.Binds pattern →
    regime.holds session → regime.owns session.heap item →
    regime.Around session (left (bindPattern Run.declare pattern item (session.enter false)))
      Session.leave
  call {session there function args} :
    regime.permits (.call function args) there → regime.holds session →
    regime.Owned session.heap args → args.length = function.params.length →
    (session.functionDepth : Int) < session.maxFunctionDepth →
    regime.Around session
      (left (bindAll Run.declare (function.params.zip args) session.enterFunction))
      (Session.leaveFunction session.loopDepth)
  assign {session there line name value vars} :
    regime.permits (.statement line) there → line.keyword = "let" → regime.holds session →
    regime.owns session.heap value → session.vars.insert name value = .ok vars →
    regime.lasts session { session with vars }
  unlet {session there line name vars} :
    regime.permits (.statement line) there → line.keyword ∉ simpleKeywords →
    there.commands.get? line.command = some .unlet → regime.holds session →
    session.vars.remove? name = .ok (some vars) → regime.lasts session { session with vars }
  define {session there line header function functions} :
    regime.permits (.statement line) there → line.role = .opens .function →
    FunctionHeader.parse line.params = .ok header → session.functions = there.functions →
    regime.holds session → session.functions.insert header.name (.user function) = .ok functions →
    regime.lasts session { session with functions }
  command {session there line id} :
    regime.permits (.statement line) there → line.keyword ∉ simpleKeywords →
    there.commands.get? line.command = some (.host id) → regime.holds session →
    regime.Ends session (fun _ _ => True) (host.command id line.range line.bang line.params session)
  function {session args} (id : Nat) : regime.holds session →
    regime.Owned session.heap args → regime.Ends session regime.owns (host.function id args session)

variable {regime}

theorem Alike.rfl : regime.Alike ending ending := .inl (Eq.refl ending)

/-- What is done to endings, and leaves a stopped run stopped, leaves them alike. -/
theorem Alike.through (alike : regime.Alike ending ending') (change : Ending σ α → Ending σ β)
    (stays : ∀ after, ∃ left, change (.error .internal after) = .error .internal left) :
    regime.Alike (change ending) (change ending') := by
  obtain same | ⟨lenient, after, stops⟩ := alike
  · exact .inl (congrArg change same)
  · exact .inr ⟨lenient, stops ▸ stays after⟩

theorem Alike.bind (alike : regime.Alike (act session) (act' session))
    (continues : ∀ value after, act' session = .ok value after →
      regime.Alike (next value after) (next' value after)) :
    regime.Alike ((act >>= next) session) ((act' >>= next') session) := by
  obtain same | ⟨lenient, after, stops⟩ := alike
  · cases ended : act' session with
    | ok value after =>
      rw [Run.bind_ok (same.trans ended), Run.bind_ok ended]
      exact continues value after ended
    | error stop after =>
      rw [Run.bind_error (same.trans ended), Run.bind_error ended]
      exact .rfl
  · exact .inr ⟨lenient, after, Run.bind_error stops⟩

/-- Two probes that stop at events without a property agree where the properties do. -/
theorem stopping_event {property stronger : Event → Session σ → Prop} {event : Event}
    {message : String} (same : property event session ↔ stronger event session)
    (permits : stronger event session → regime.permits event session)
    (trace : regime.lasts session { session with trace := message :: session.trace }) :
    regime.Alike (Probe.stopping property message event session)
        (Probe.stopping stronger message event session) ∧
      (Probe.stopping stronger message event session = .ok () session ∧
          regime.permits event session ∨
        ∃ after, Probe.stopping stronger message event session = .error .internal after ∧
          regime.lasts session after) := by
  by_cases has : stronger event session
  · have passes := Probe.stopping_of_property has message
    refine ⟨.inl ?_, .inl ⟨passes, permits has⟩⟩
    rw [passes, Probe.stopping_of_property (same.mpr has)]
  · have stops := Probe.stopping_of_not has message
    refine ⟨.inl ?_, .inr ⟨_, stops, trace⟩⟩
    rw [stops, Probe.stopping_of_not fun weaker => has (same.mp weaker)]

theorem Owned.nil : regime.Owned heap [] := nofun

theorem Owned.cons (first : regime.owns heap value) (rest : regime.Owned heap values) :
    regime.Owned heap (value :: values) := by
  intro other mem
  obtain rfl | mem := List.mem_cons.mp mem
  · exact first
  · exact rest other mem

theorem Owned.head (owned : regime.Owned heap (value :: values)) : regime.owns heap value :=
  owned value List.mem_cons_self

theorem Owned.tail (owned : regime.Owned heap (value :: values)) : regime.Owned heap values :=
  fun other mem => owned other (List.mem_cons_of_mem value mem)

theorem Owned.subset {few many : List Value} (owned : regime.Owned heap many) (subset : few ⊆ many) :
    regime.Owned heap few :=
  fun value mem => owned value (subset mem)

theorem Owned.getD {default : Value} (owned : regime.Owned heap values)
    (default_owned : regime.owns heap default) (index : Nat) :
    regime.owns heap (values.getD index default) := by
  rw [List.getD_eq_getElem?_getD]
  cases found : values[index]? with
  | none => exact default_owned
  | some value => exact owned value (List.mem_of_getElem? found)

theorem Owned.later (owned : regime.Owned before.heap values) (leads : regime.Leads before after) :
    regime.Owned after.heap values :=
  fun value mem => leads.owns (owned value mem)

theorem Ends.leads (ends : regime.Ends session post ending) :
    regime.Leads session (left ending) := by
  cases ending with
  | ok value after => exact ends.1
  | error stop after => exact ends.1

section Storable

variable {handle : Handle} {left right : List Value}

theorem Storable.of_owned (owned : regime.Owned heap left)
    (fits : ∀ value ∈ left, regime.Fits handle value) : regime.Storable heap handle left :=
  fun value mem => ⟨owned value mem, fits value mem⟩

theorem Storable.subset (storable : regime.Storable heap handle right) (subset : left ⊆ right) :
    regime.Storable heap handle left :=
  fun value mem => storable value (subset mem)

theorem Storable.append (first : regime.Storable heap handle left)
    (second : regime.Storable heap handle right) : regime.Storable heap handle (left ++ right) := by
  intro value mem
  obtain mem | mem := List.mem_append.mp mem
  · exact first value mem
  · exact second value mem

theorem Storable.cons (owned : regime.owns heap value) (fits : regime.Fits handle value)
    (rest : regime.Storable heap handle left) : regime.Storable heap handle (value :: left) := by
  intro other mem
  obtain rfl | mem := List.mem_cons.mp mem
  · exact ⟨owned, fits⟩
  · exact rest other mem

theorem Storable.later (storable : regime.Storable before.heap handle left)
    (leads : regime.Leads before after) : regime.Storable after.heap handle left :=
  fun value mem => ⟨leads.owns (storable value mem).1, (storable value mem).2⟩

end Storable

namespace Kept

variable {host : Host σ} {probe probe' : Probe σ} (kept : regime.Kept host probe probe')
include kept
variable {last : Heap → β → Prop}

theorem storable_contents (held : regime.holds session) (handle : Handle) :
    regime.Storable session.heap handle (session.heap.contents handle) :=
  .of_owned (kept.owns_contents handle held) fun _ mem => kept.fits_contents held mem

theorem leads (held : regime.holds session) (lasts : regime.lasts session after) :
    regime.Leads session after :=
  ⟨lasts, kept.lasts_holds lasts held, kept.lasts_owns lasts held⟩

theorem leads_self (held : regime.holds session) : regime.Leads session session :=
  kept.leads held (kept.refl session)

theorem leads_trans {first second third : Session σ} (before : regime.Leads first second)
    (after : regime.Leads second third) : regime.Leads first third :=
  ⟨kept.trans before.lasts after.lasts, after.holds, fun owned => after.owns (before.owns owned)⟩

theorem ends_later (leads : regime.Leads session after) (ends : regime.Ends after post ending) :
    regime.Ends session post ending := by
  cases ending with
  | ok value last | error stop last => exact ⟨kept.leads_trans leads ends.1, ends.2⟩

omit kept in
theorem ends_mono (weaken : ∀ heap value, post heap value → weaker heap value)
    (ends : regime.Ends session post ending) : regime.Ends session weaker ending := by
  cases ending with
  | ok value after => exact ⟨ends.1, weaken _ _ ends.2⟩
  | error stop after => exact ends

omit kept in
theorem mono (weaken : ∀ heap value, post heap value → weaker heap value)
    (agrees : regime.Agrees session post act act') : regime.Agrees session weaker act act' :=
  fun held => ⟨(agrees held).1, ends_mono weaken (agrees held).2⟩

/-! ### Putting computations together -/

theorem pure {value : α} (fine : post session.heap value) :
    regime.Complies session post (pure value) :=
  fun held => ⟨.rfl, kept.leads_self held, fine⟩

theorem stopped {stop : Stop}
    (fine : ∀ value, stop = .returning value → regime.owns session.heap value) :
    regime.Complies session post (throw stop) :=
  fun held => ⟨.rfl, kept.leads_self held, fine⟩

theorem fault (cause : Fault) :
    regime.Complies session post (Run.fault cause) := kept.stopped nofun

theorem internal : regime.Complies session post (throw .internal) :=
  kept.stopped nofun

theorem internal_bind {next next' : β → Run σ α} :
    regime.Agrees session post (throw .internal >>= next) (throw .internal >>= next') :=
  kept.internal

theorem fault_bind (cause : Fault) {next next' : β → Run σ α} :
    regime.Agrees session post (Run.fault cause >>= next) (Run.fault cause >>= next') :=
  kept.fault cause

theorem ends_bind (first : regime.Ends session post (act session))
    (second : ∀ value after, act session = .ok value after → regime.Leads session after →
      post after.heap value → regime.Ends after last (next value after)) :
    regime.Ends session last ((act >>= next) session) := by
  cases ended : act session with
  | ok value after =>
    rw [ended] at first
    rw [Run.bind_ok ended]
    exact kept.ends_later first.1 (second value after ended first.1 first.2)
  | error stop after =>
    rw [ended] at first
    rw [Run.bind_error ended]
    exact first

/-- What comes second goes the same way in the session that the first computation leaves. -/
theorem bind_ended (first : regime.Agrees session post act act')
    (second : ∀ value after, act' session = .ok value after → regime.Leads session after →
      post after.heap value → regime.Agrees after last (next value) (next' value)) :
    regime.Agrees session last (act >>= next) (act' >>= next') := by
  intro held
  obtain ⟨alike, ends⟩ := first held
  constructor
  · refine alike.bind fun value after ended => ?_
    rw [ended] at ends
    exact (second value after ended ends.1 ends.2 ends.1.holds).1
  · exact kept.ends_bind ends fun value after ended leads fine =>
      (second value after ended leads fine leads.holds).2

theorem bind (first : regime.Agrees session post act act')
    (second : ∀ value after, regime.Leads session after → post after.heap value →
      regime.Agrees after last (next value) (next' value)) :
    regime.Agrees session last (act >>= next) (act' >>= next') :=
  kept.bind_ended first fun value after _ => second value after

omit kept in
theorem inspect {next next' : Session σ → Run σ α}
    (agrees : regime.Agrees session post (next session) (next' session)) :
    regime.Agrees session post (get >>= next) (get >>= next') := agrees

theorem ofExcept {result : Except Fault α} (fine : ∀ value, result = .ok value →
    post session.heap value) :
    regime.Complies session post (Run.ofExcept result) := by
  cases result with
  | ok value => exact kept.pure (fine value rfl)
  | error cause => exact kept.fault cause

theorem converted (result : Except Fault α) :
    regime.Accords session (Run.ofExcept result) (Run.ofExcept result) :=
  kept.ofExcept fun _ _ => trivial

theorem discarded (acts : regime.Agrees session post act act') :
    regime.Accords session (discard act) (discard act') :=
  kept.bind acts fun _ _ _ _ => kept.pure trivial

theorem modified {change : Session σ → Session σ}
    (lasts : regime.lasts session (change session)) :
    regime.Accords session (modify change) (modify change) :=
  fun held => ⟨.rfl, kept.leads held lasts, trivial⟩

theorem noted (message : String) (session : Session σ) :
    regime.lasts session (session.noted message) := by
  unfold Session.noted
  split
  · exact kept.trace session _
  · exact kept.refl session

theorem note (message : String) : regime.Accords session (Run.note message) (Run.note message) :=
  kept.modified (kept.noted message session)

theorem setLine (line : Line) : regime.Accords session (Run.setLine line) (Run.setLine line) :=
  kept.modified (kept.line session line)

theorem checkPatience : regime.Accords session Run.checkPatience Run.checkPatience := by
  intro held
  refine ⟨.rfl, ?_⟩
  obtain ⟨_, late⟩ | ⟨left, _, ready⟩ := Run.checkPatience_cases session
  · rw [late]
    exact ⟨kept.leads held (kept.patience session 0), nofun⟩
  · rw [ready]
    exact ⟨kept.leads held (kept.patience session left), trivial⟩

theorem lookup (name : String) : regime.Complies session regime.owns (Run.lookup name) := by
  intro held
  have found : regime.Complies session
    (fun heap found => ∀ value, found = some value → regime.owns heap value)
    (Run.ofExcept (session.vars.find? name)) :=
    kept.ofExcept fun found is_found value same =>
      kept.owns_variable held (is_found.trans (congrArg _ same))
  refine inspect (kept.bind found fun found after _ owned => ?_) held
  cases found with
  | some value => exact kept.pure (owned value rfl)
  | none => exact kept.fault _

/-- The probes let an event pass that is permitted, or stop the run. -/
theorem seen (event : Event)
    (agrees : regime.permits event session → regime.Agrees session post act act') :
    regime.Agrees session post (probe event >>= fun _ => act) (probe' event >>= fun _ => act') := by
  intro held
  obtain ⟨alike, ⟨passes, permitted⟩ | ⟨after, stops, lasts⟩⟩ := kept.event event held
  · obtain ⟨alike', ends⟩ := agrees permitted held
    refine ⟨alike.bind fun value after ended => ?_, Run.bind_ok passes ▸ ends⟩
    rw [passes] at ended
    cases ended
    exact alike'
  · refine ⟨alike.bind fun value after ended => ?_, ?_⟩
    · rw [stops] at ended
      cases ended
    · rw [Run.bind_error stops]
      exact ⟨kept.leads held lasts, nofun⟩

theorem seen_if {event} {condition : Prop} [Decidable condition]
    (agrees : (condition → regime.permits event session) → regime.Agrees session post act act') :
    regime.Agrees session post (if condition then probe event >>= fun _ => act else act)
      (if condition then probe' event >>= fun _ => act' else act') := by
  split
  · exact kept.seen event fun permitted => agrees fun _ => permitted
  · rename_i unseen
    exact agrees (absurd · unseen)

/-! ### Layers -/

variable {leave : Session σ → Session σ}

theorem ends_around (held : regime.holds session) (around : regime.Around session inner leave)
    (left_heap : ∀ after, (leave after).heap = after.heap) (ends : regime.Ends inner post ending) :
    regime.Ends session post (onLeft leave ending) := by
  have outside {after : Session σ} (leads : regime.Leads inner after) :
      regime.Leads session (leave after) :=
    kept.leads held (around.lasts leads.lasts)
  cases ending with
  | ok value after | error stop after =>
    refine ⟨outside ends.1, ?_⟩
    rw [left_heap]
    exact ends.2

theorem layered (held : regime.holds session) (around : regime.Around session inner leave)
    (left_heap : ∀ after, (leave after).heap = after.heap)
    (inside : regime.Alike ending ending' ∧ regime.Ends inner post ending') :
    regime.Alike (onLeft leave ending) (onLeft leave ending') ∧
      regime.Ends session post (onLeft leave ending') :=
  ⟨inside.1.through (onLeft leave) fun after => ⟨leave after, rfl⟩,
    kept.ends_around held around left_heap inside.2⟩

end Kept
end Regime
end Vimlet
