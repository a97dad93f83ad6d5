import Vimlet.Proofs.Expr.Contraction
import Vimlet.Proofs.Interpreter.Layer
import Vimlet.Proofs.Sorting.Composition

/-!
# Computations that are made alike

`Congruence` lists the steps of evaluations and of simple statements and the ways in which they are
put together. A relation that all of them respect holds of whole evaluations, by different engines
and handlers, as soon as it holds of these.
-/

namespace Vimlet

variable {σ : Type}
variable {engine engine' : Engine σ} {α : Type} {bind : String → Value → Run σ Unit}

/-- A relation between computations with results of the same type. -/
abbrev Run.Relation (σ : Type) := ∀ ⦃α : Type⦄, Run σ α → Run σ α → Prop

/-- The host with something around its handlers. -/
def Host.guarded (host : Host σ) (guard : ∀ ⦃α : Type⦄, Run σ α → Run σ α) : Host σ :=
  { host with
    command := fun id range bang params => guard (host.command id range bang params)
    function := fun id args => guard (host.function id args) }

/-- A relation of evaluations and simple statements put together in the same way. -/
structure Congruence (host : Host σ) (guard : ∀ ⦃α : Type⦄, Run σ α → Run σ α)
    (related : Run.Relation σ) : Prop where
  pure {α : Type} (value : α) : related (pure value) (pure value)
  bind {α β act act'} {next next' : α → Run σ β} :
    related act act' → (∀ value, related (next value) (next' value)) →
    related (act >>= next) (act' >>= next')
  throw {α : Type} {stop} (ordinary : stop.isSignal = false) :
    related (throw stop : Run σ α) (throw stop)
  /-- The session is looked at, but not the time that is left. -/
  inspect {α : Type} {next next' : Session σ → Run σ α}
    (timeless : ∀ session patience, next' (session.withPatience patience) = next' session) :
    (∀ session, related (next session) (next' session)) → related (get >>= next) (get >>= next')
  onHeap {α : Type} {act : Mem α} (step : HeapStep act) : related (Run.onHeap act) (Run.onHeap act)
  echo (message : String) :
    related (Run.onHost (host.echo message)) (Run.onHost (host.echo message))
  note (message : String) : related (Run.note message) (Run.note message)
  assign (name : String) (value : Value) : related (Run.assign name value) (Run.assign name value)
  unlet (name : String) : related (Run.unlet name) (Run.unlet name)
  declare (name : String) (value : Value) :
    related (Run.declare name value) (Run.declare name value)
  script {α : Type} (id : ScopeId) {act act' : Run σ α} :
    related act act' → related (inScript id act) (inScript id act')
  callback {α : Type} (key value : Value) {act act' : Run σ α} :
    related act act' → related (inCallback key value act) (inCallback key value act')
  stop {α : Type} (change : Heap → Heap) {act act' : Run σ α} :
    related act act' → related (onStop change act) (onStop change act')
  enclosed {α : Type} {act act' : Run σ α} :
    related act act' → related (Run.enclosed act) (Run.enclosed act')
  command (id : Nat) (range : LineRange) (bang : Bool) (params : String) :
    related (guard (host.command id range bang params)) (host.command id range bang params)
  function (id : Nat) (args : List Value) :
    related (guard (host.function id args)) (host.function id args)

structure Engine.Related (related : Run.Relation σ) (engine engine' : Engine σ) : Prop where
  eval (text : String) : related (engine.eval text) (engine'.eval text)
  call (name : String) (args : List Value) :
    related (engine.call name args) (engine'.call name args)
  run (lines : List Line) : related (engine.run lines) (engine'.run lines)

/-- Steps of two sorts only stop for a reason, and are related as computations. -/
def AlikeSteps (related : Run.Relation σ) {ε : Type} (stop : ε → Stop) (change : ε → Heap → Heap)
    (β : Type) (act act' : ExceptT ε (Run σ) β) : Prop :=
  Answers act ∧ Answers act' ∧ related (settled stop change act) (settled stop change act')

namespace Congruence

variable {host : Host σ} {guard : ∀ ⦃α : Type⦄, Run σ α → Run σ α} {related : Run.Relation σ}
  (cong : Congruence host guard related)
include cong

theorem fault (cause : Fault) :
    related (Run.fault cause : Run σ α) (Run.fault cause) := cong.throw rfl

theorem ofExcept (result : Except Fault α) :
    related (Run.ofExcept result) (Run.ofExcept result) := by
  cases result with
  | ok value => exact cong.pure value
  | error cause => exact cong.fault cause

theorem lookup (name : String) : related (Run.lookup name) (Run.lookup name) := by
  refine cong.inspect (fun _ _ => rfl) fun session => ?_
  refine cong.bind (cong.ofExcept _) fun found => ?_
  cases found with
  | some value => exact cong.pure value
  | none => exact cong.fault _

theorem discard {act act' : Run σ α} (acts : related act act') :
    related (discard act) (discard act') :=
  cong.bind acts fun _ => cong.pure ()

theorem callRef (ref : FuncRef) (args : List Value)
    (calls : related (engine.call ref.name args) (engine'.call ref.name args)) :
    related (engine.callRef ref args) (engine'.callRef ref args) := by
  cases placed : ref.script with
  | none =>
    rw [callRef_of_none placed, callRef_of_none placed]
    exact calls
  | some id =>
    rw [callRef_of_some placed, callRef_of_some placed]
    exact cong.script id calls

/-! ### Steps of sorts -/

section Steps

variable {ε ε' β γ : Type} {stop : ε → Stop} {change : ε → Heap → Heap} {stop' : ε' → Stop}
  {change' : ε' → Heap → Heap} {act act' : ExceptT ε (Run σ) β}

theorem pureStep (value : β) : AlikeSteps related stop change β (Pure.pure value) (Pure.pure value) :=
  ⟨fun _ => ⟨_, _, rfl⟩, fun _ => ⟨_, _, rfl⟩, cong.pure value⟩

theorem bindSteps {next next' : β → ExceptT ε (Run σ) γ}
    (first : AlikeSteps related stop change β act act')
    (second : ∀ value, AlikeSteps related stop change γ (next value) (next' value)) :
    AlikeSteps related stop change γ (act >>= next) (act' >>= next') := by
  refine ⟨first.1.bind fun value => (second value).1,
    first.2.1.bind fun value => (second value).2.1, ?_⟩
  rw [settled_bind, settled_bind]
  exact cong.bind first.2.2 fun value => (second value).2.2

theorem adaptSteps {reason : ε → ε'} (more : Heap → Heap) (stops : stop' ∘ reason = stop)
    (changes : ∀ first heap, change' (reason first) heap = more (change first heap))
    (acts : AlikeSteps related stop change β act act') :
    AlikeSteps related stop' change' β (act.adapt reason) (act'.adapt reason) := by
  subst stops
  refine ⟨acts.1.adapt _, acts.2.1.adapt _, ?_⟩
  rw [settled_adapt acts.1 changes, settled_adapt acts.2.1 changes]
  exact cong.stop more acts.2.2

end Steps

/-! ### Expressions -/

section Rules

open Reduce

theorem sweepWithin {rule rule'}
    (rules : ∀ before tokens, related (rule before tokens) (rule' before tokens)) (sticky : Bool)
    (fuel : Nat) (before rest : List Token) (changed : Bool) :
    related (sweepWithin sticky rule fuel before rest changed)
      (sweepWithin sticky rule' fuel before rest changed) := by
  induction fuel generalizing before rest changed with
  | zero => exact cong.pure _
  | succ fuel ih =>
    cases rest with
    | nil => exact cong.pure _
    | cons token rest =>
      refine cong.bind (rules before _) fun found => ?_
      rcases found with _ | ⟨value, after⟩
      · exact ih _ _ _
      · cases sticky <;> exact ih _ _ _

theorem sweep {rule rule'}
    (rules : ∀ before tokens, related (rule before tokens) (rule' before tokens)) (sticky : Bool)
    (tokens : List Token) : related (sweep sticky rule tokens) (sweep sticky rule' tokens) :=
  cong.sweepWithin rules sticky _ _ _ _

theorem applyUnary (symbol : Op) (operand : Value) :
    related (applyUnary symbol operand) (applyUnary symbol operand) := by
  unfold Reduce.applyUnary
  split
  · exact cong.ofExcept _
  · exact cong.inspect (fun _ _ => rfl) fun session => cong.pure _
  · split
    · exact cong.pure _
    · exact cong.ofExcept _

theorem unaryFrom (before tokens : List Token) :
    related (unaryFrom before tokens) (unaryFrom before tokens) := by
  induction tokens generalizing before with
  | nil => exact cong.pure _
  | cons token rest ih =>
    refine cong.bind (ih (token :: before)) fun outcome => ?_
    dsimp only
    split
    · split
      · exact cong.bind (cong.applyUnary _ _) fun _ => cong.pure _
      · exact cong.pure _
    · exact cong.pure _

theorem applyBinary (symbol : Op) (a b : Value) :
    related (applyBinary symbol a b) (applyBinary symbol a b) := by
  cases symbol with
  | times | divide | modulo | plus | minus => exact cong.ofExcept _
  | dot => exact cong.inspect (fun _ _ => rfl) fun session => cong.pure _
  | less | lessEqual | greater | greaterEqual => exact cong.pure _
  | equal | notEqual =>
    exact cong.bind (cong.onHeap (.equal _ _)) fun _ => cong.pure _
  | _ => exact cong.throw rfl

theorem perform (engines : engine.Related related engine') (action : Action) :
    related (action.perform engine) (action.perform engine') := by
  cases action with
  | call name args => exact engines.call name args
  | apply function args => exact cong.callRef _ _ (engines.call _ _)
  | list items => exact cong.onHeap (.newList _)
  | object entries =>
    exact cong.inspect (fun _ _ => rfl) fun session => cong.onHeap (.newObject _)
  | index base key => exact cong.onHeap (.index _ _)
  | slice base first last => exact cong.onHeap (.slice _ _ _)
  | group value => exact cong.pure value
  | unary symbol operand => exact cong.applyUnary symbol operand
  | binary symbol a b => exact cong.applyBinary symbol a b

theorem passes (engines : engine.Related related engine') :
    List.Forall₂ (fun pass pass' : Pass σ => ∀ tokens, related (pass tokens) (pass' tokens))
      (passes engine) (passes engine') := by
  refine forall₂_passes (fun sticky rule alike => cong.sweep (fun before tokens => ?_) sticky)
    (cong.unaryFrom [])
  obtain idle | ⟨action, after, _, applies⟩ := alike before tokens
  · rw [idle, idle]
    exact cong.pure _
  · rw [applies, applies]
    exact cong.bind (cong.perform engines action) fun _ => cong.pure _

theorem runPasses {passes passes'}
    (alike : List.Forall₂ (fun pass pass' => ∀ tokens, related (pass tokens) (pass' tokens))
      passes passes') (tokens : List Token) :
    related (runPasses passes tokens) (runPasses passes' tokens) := by
  induction alike generalizing tokens with
  | nil => exact cong.pure _
  | cons first _ ih =>
    refine cong.bind (first tokens) fun outcome => ?_
    exact cong.bind (ih outcome.1) fun _ => cong.pure _

theorem reduceWithin (engines : engine.Related related engine') (text : String) (fuel : Nat)
    (tokens : List Token) :
    related (reduceWithin engine text fuel tokens) (reduceWithin engine' text fuel tokens) := by
  induction fuel generalizing tokens with
  | zero =>
    unfold Reduce.reduceWithin
    split
    · exact cong.throw rfl
    · exact cong.pure _
    · exact cong.fault _
    · exact cong.fault _
    · contradiction
  | succ fuel ih =>
    unfold Reduce.reduceWithin
    split
    · exact cong.throw rfl
    · exact cong.pure _
    · exact cong.fault _
    · contradiction
    · rename_i same _ _ _
      cases same
      refine cong.bind (cong.runPasses (cong.passes engines) _) fun outcome => ?_
      dsimp only
      split
      · exact ih outcome.1
      · exact cong.fault _

end Rules

theorem substitute (tokens : List Token) :
    related (substitute host tokens) (substitute host tokens) := by
  fun_induction Vimlet.substitute host tokens with
  | case1 name rest ih =>
    refine cong.inspect (fun _ _ => rfl) fun session => ?_
    refine cong.bind (cong.ofExcept _) fun _ => ?_
    exact cong.bind ih fun _ => cong.pure _
  | case2 name rest ih =>
    exact cong.bind (cong.lookup name) fun _ =>
      cong.bind ih fun _ => cong.pure _
  | case3 token rest _ _ ih => exact cong.bind ih fun _ => cong.pure _
  | case4 => exact cong.pure _

section Engines

variable (engines : engine.Related related engine')
include engines

theorem evaluate (text : String) :
    related (evaluate host engine text) (evaluate host engine' text) := by
  unfold Vimlet.evaluate
  split
  · rename_i failed
    exact cong.throw (lex_error failed)
  · exact cong.fault _
  · exact cong.bind (cong.substitute _) fun _ =>
      cong.reduceWithin engines text _ _

/-! ### Simple statements -/

omit engines in
theorem bindAll (binds : ∀ name value, related (bind name value) (bind name value))
    (bound : List (String × Value)) : related (bindAll bind bound) (bindAll bind bound) := by
  induction bound with
  | nil => exact cong.pure ()
  | cons first rest ih => exact cong.bind (binds _ _) fun _ => ih

omit engines in
theorem bindPattern (binds : ∀ name value, related (bind name value) (bind name value))
    (pattern : Pattern) (value : Value) :
    related (bindPattern bind pattern value) (bindPattern bind pattern value) := by
  refine cong.inspect (fun _ _ => rfl) fun session => ?_
  refine cong.bind (cong.bindAll binds _) fun _ => ?_
  split
  · exact cong.fault _
  · exact cong.pure ()

theorem readTarget (target : String) :
    related (readTarget engine target) (readTarget engine' target) := by
  unfold Vimlet.readTarget
  split
  · refine cong.bind (cong.lookup _) fun _ => cong.bind (engines.eval _) fun _ => ?_
    exact cong.onHeap (.index _ _)
  · exact cong.lookup _

theorem assignTarget (target : String) (value : Value) :
    related (assignTarget engine target value) (assignTarget engine' target value) := by
  unfold Vimlet.assignTarget
  split
  · exact cong.bind (cong.ofExcept _) fun _ =>
      cong.bindPattern cong.assign _ _
  · split
    · refine cong.bind (cong.lookup _) fun _ => ?_
      refine cong.bind (engines.eval _) fun _ => ?_
      exact cong.onHeap (.setItem _ _ _)
    · split
      · exact cong.assign _ _
      · exact cong.fault _

omit engines in
theorem applyCompound (operator : Compound) (a b : Value) :
    related (applyCompound operator a b) (applyCompound operator a b) := by
  cases operator with
  | add | sub | mul | div => exact cong.ofExcept _
  | concat => exact cong.inspect (fun _ _ => rfl) fun _ => cong.pure _

theorem executeLet (line : Line) : related (executeLet engine line) (executeLet engine' line) := by
  unfold Vimlet.executeLet
  split
  · exact cong.fault _
  · refine cong.bind (cong.ofExcept _) fun assignment => ?_
    refine cong.bind (engines.eval _) fun value => ?_
    split
    · refine cong.bind (cong.readTarget engines _) fun _ => ?_
      exact cong.bind (cong.applyCompound _ _ _) fun _ =>
        cong.assignTarget engines _ _
    · exact cong.assignTarget engines _ _

theorem runNested (line : Line) : related (runNested engine line) (runNested engine' line) := by
  unfold Vimlet.runNested
  split
  · exact engines.run _
  · exact cong.pure ()

theorem executeText (value : Value) :
    related (executeText engine value) (executeText engine' value) :=
  cong.inspect (fun _ _ => rfl) fun _ => cong.enclosed (engines.run _)

omit engines in
theorem unletAll (bang : Bool) (names : List String) :
    related (unletAll bang names) (unletAll bang names) := by
  induction names with
  | nil => exact cong.pure ()
  | cons name rest ih =>
    refine cong.bind (cong.unlet name) fun removed => ?_
    split
    · exact cong.bind (cong.fault _) fun _ => ih
    · exact ih

theorem runCommand (command : Command) (line : Line) :
    related (runCommand (host.guarded guard) engine command line)
      (runCommand host engine' command line) := by
  cases command with
  | call => exact cong.discard (cong.enclosed (engines.eval _))
  | echo =>
    simp only [Vimlet.runCommand]
    split
    · exact cong.echo _
    · refine cong.bind (cong.enclosed (engines.eval _)) fun value => ?_
      exact cong.inspect (fun _ _ => rfl) fun _ => cong.echo _
  | unlet =>
    simp only [Vimlet.runCommand]
    split
    · exact cong.fault _
    · exact cong.unletAll _ _
  | host id => exact cong.command _ _ _ _

/-! ### Functions -/

theorem callValue (function : Value) (args : List Value) :
    related (callValue engine function args) (callValue engine' function args) := by
  unfold Vimlet.callValue
  split
  · exact cong.callRef _ _ (engines.call _ _)
  · exact cong.inspect (fun _ _ => rfl) fun _ => engines.call _ _

theorem runCallback (callback key value : Value) :
    related (runCallback engine callback key value) (runCallback engine' callback key value) := by
  obtain ⟨ref, calls⟩ | evaluates := runCallback_cases (σ := σ) callback key value
  · rw [calls, calls]
    exact cong.callRef _ _ (engines.call _ _)
  · rw [evaluates, evaluates]
    exact cong.callback key value
      (cong.inspect (fun _ _ => rfl) fun _ => engines.eval _)

theorem testCallback (callback key value : Value) :
    related (testCallback engine callback key value) (testCallback engine' callback key value) := by
  refine cong.bind (cong.runCallback engines _ _ _) fun answer => ?_
  exact cong.inspect (fun _ _ => rfl) fun _ => cong.pure _

theorem filterEntries (callback : Value) (cell : Nat) (entries : List (String × Value)) :
    related (filterEntries engine callback cell entries)
      (filterEntries engine' callback cell entries) := by
  induction entries with
  | nil => exact cong.pure ()
  | cons first rest ih =>
    refine cong.bind (cong.testCallback engines _ _ _) fun kept => ?_
    split
    · refine cong.inspect (fun _ _ => rfl) fun session => ?_
      dsimp only
      split
      · exact cong.bind (cong.onHeap (.eraseEntry _ _ _)) fun _ => ih
      · exact cong.bind (cong.throw rfl) fun _ => ih
    · exact ih

theorem filterItems (callback : Value) (index : Nat) (items : List Value) :
    related (filterItems engine callback index items)
      (filterItems engine' callback index items) := by
  induction items generalizing index with
  | nil => exact cong.pure _
  | cons item rest ih =>
    refine cong.bind (cong.testCallback engines _ _ _) fun kept => ?_
    exact cong.bind (ih _) fun _ => cong.pure _

theorem filterContainer (container callback : Value) :
    related (filterContainer engine container callback)
      (filterContainer engine' container callback) := by
  unfold Vimlet.filterContainer
  split
  · refine cong.inspect (fun _ _ => rfl) fun session => ?_
    exact cong.bind (cong.filterEntries engines _ _ _) fun _ => cong.pure _
  · refine cong.bind (cong.onHeap (.listCell _)) fun cell => ?_
    refine cong.inspect (fun _ _ => rfl) fun session => ?_
    refine cong.bind (cong.filterItems engines _ _ _) fun kept => ?_
    exact cong.bind (cong.onHeap (.setList _ _)) fun _ => cong.pure _

theorem mapEntries (callback : Value) (cell : Nat) (entries : List (String × Value)) :
    related (mapEntries engine callback cell entries)
      (mapEntries engine' callback cell entries) := by
  induction entries with
  | nil => exact cong.pure ()
  | cons first rest ih =>
    refine cong.bind (cong.runCallback engines _ _ _) fun result => ?_
    exact cong.bind (cong.onHeap (.insertEntry _ _ _)) fun _ => ih

theorem mapItems (callback : Value) (cell index : Nat) (items : List Value) :
    related (mapItems engine callback cell index items)
      (mapItems engine' callback cell index items) := by
  induction items generalizing index with
  | nil => exact cong.pure ()
  | cons item rest ih =>
    refine cong.bind (cong.runCallback engines _ _ _) fun result => ?_
    refine cong.inspect (fun _ _ => rfl) fun session => ?_
    split
    · exact cong.bind (cong.onHeap (.replaceItem _ _ _)) fun _ => ih _
    · exact cong.bind (cong.throw rfl) fun _ => ih _

theorem mapContainer (container callback : Value) :
    related (mapContainer engine container callback)
      (mapContainer engine' container callback) := by
  unfold Vimlet.mapContainer
  split
  · refine cong.inspect (fun _ _ => rfl) fun session => ?_
    exact cong.bind (cong.mapEntries engines _ _ _) fun _ => cong.pure _
  · refine cong.bind (cong.onHeap (.listCell _)) fun cell => ?_
    refine cong.inspect (fun _ _ => rfl) fun session => ?_
    exact cong.bind (cong.mapItems engines _ _ _ _) fun _ => cong.pure _

theorem sortOrder (comparator a b : Value) :
    related (sortOrder engine comparator a b) (sortOrder engine' comparator a b) := by
  unfold Vimlet.sortOrder
  split
  · exact cong.pure _
  · exact cong.pure _
  · refine cong.bind (cong.callValue engines _ _) fun answer => ?_
    exact cong.bind (cong.ofExcept _) fun _ => cong.pure _

omit engines in
theorem sortElements {order order' : Value → Value → Run σ Bool}
    (orders : ∀ a b, related (order a b) (order' a b)) (cell : Nat) (elements : List Value) :
    related (sortElements order cell elements) (sortElements order' cell elements) := by
  have congruence : Sorting.Congruence (α := Value) (AlikeSteps related id fun _ => id)
      (AlikeSteps related Sorting.Stopped.stop fun stopped heap =>
        heap.setList cell stopped.items) :=
    { search_pure := cong.pureStep
      search_bind := cong.bindSteps
      sorting_pure := cong.pureStep
      sorting_bind := cong.bindSteps
      among := fun items => cong.adaptSteps (·.setList cell (items ())) rfl fun _ _ => rfl
      within := fun before after =>
        cong.adaptSteps (fun heap => heap.setList cell (before ++ heap.list cell ++ after)) rfl
          fun stopped heap =>
            (heap.setList_again cell stopped.items (before ++ · ++ after)).symm }
  rw [sortElements_eq, sortElements_eq]
  refine (congruence.sort (fun a b => ⟨.attempt _, .attempt _, ?_⟩) elements).2.2
  rw [settled_attempt, settled_attempt]
  exact orders a b

theorem sortList (items comparator : Value) :
    related (sortList engine items comparator) (sortList engine' items comparator) := by
  refine cong.bind (cong.onHeap (.listCell _)) fun cell => ?_
  refine cong.inspect (fun _ _ => rfl) fun session => ?_
  refine cong.inspect (fun _ _ => rfl) fun session => ?_
  refine cong.bind (cong.onHeap (.setList _ _)) fun _ => ?_
  refine cong.bind (cong.sortElements (cong.sortOrder engines comparator) _ _)
    fun sorted => ?_
  refine cong.inspect (fun _ _ => rfl) fun session => ?_
  refine cong.bind (cong.onHeap (.setList _ _)) fun _ => ?_
  split
  · exact cong.throw rfl
  · exact cong.pure _

omit engines in
theorem addError (message : String) : related (addError message) (addError message) := by
  refine cong.inspect (fun _ _ => rfl) fun session => ?_
  split
  · exact cong.onHeap (.pushText _ _)
  · exact cong.throw rfl

omit engines in
theorem report (holds : Bool) (message : Value) (default : String) :
    related (report holds message default) (report holds message default) := by
  unfold Vimlet.report
  split
  · exact cong.pure _
  · split
    · exact cong.bind (cong.addError _) fun _ => cong.pure _
    · refine cong.inspect (fun _ _ => rfl) fun session => ?_
      exact cong.bind (cong.addError _) fun _ => cong.pure _

omit engines in
theorem makeRef (value : Value) : related (makeRef value) (makeRef value) := by
  unfold Vimlet.makeRef
  split
  · exact cong.pure _
  · refine cong.inspect (fun _ _ => rfl) fun session => ?_
    dsimp only
    split
    · split
      · exact cong.onHeap (.newRef _ _)
      · exact cong.fault _
    · split
      · exact cong.onHeap (.newRef _ _)
      · exact cong.fault _

omit engines in
theorem nameExists (text : String) : related (nameExists text) (nameExists text) := by
  refine cong.inspect (fun _ _ => rfl) fun session => ?_
  split
  · exact cong.pure _
  · split
    · exact cong.pure _
    · exact cong.pure _

theorem applyControl (f : ControlFunction) (args : List Value) :
    related (f.apply engine args) (f.apply engine' args) := by
  unfold ControlFunction.apply
  split
  · exact cong.inspect (fun _ _ => rfl) fun _ => cong.enclosed (engines.eval _)
  · exact cong.bind (cong.executeText engines _) fun _ => cong.pure _
  · refine cong.inspect (fun _ _ => rfl) fun _ => ?_
    exact cong.bind (cong.executeText engines _) fun _ => cong.pure _
  · exact cong.bind (cong.onHeap (.itemsOf _)) fun _ => cong.callValue engines _ _
  · exact cong.makeRef _
  · refine cong.inspect (fun _ _ => rfl) fun _ => ?_
    exact cong.bind (cong.nameExists _) fun _ => cong.pure _
  · exact cong.filterContainer engines _ _
  · exact cong.mapContainer engines _ _
  · exact cong.sortList engines _ _
  · refine cong.bind (cong.onHeap (.equal _ _)) fun _ => ?_
    exact cong.inspect (fun _ _ => rfl) fun _ => cong.report _ _ _
  · refine cong.bind (cong.onHeap (.equal _ _)) fun _ => ?_
    exact cong.inspect (fun _ _ => rfl) fun _ => cong.report _ _ _
  · exact cong.inspect (fun _ _ => rfl) fun _ => cong.report _ _ _
  · exact cong.inspect (fun _ _ => rfl) fun _ => cong.report _ _ _
  · exact cong.throw rfl

theorem applyBuiltin (f : Builtin) (args : List Value) :
    related (f.apply engine args) (f.apply engine' args) := by
  cases f with
  | math f => exact cong.ofExcept _
  | text f => exact cong.onHeap (.text _ _)
  | container f => exact cong.onHeap (.container _ _)
  | control f => exact cong.applyControl engines f args

omit engines in
theorem checkArguments (signature : Signature) (args : List Value) :
    related (checkArguments signature args) (checkArguments signature args) := by
  unfold Vimlet.checkArguments
  split
  · exact cong.pure ()
  · exact cong.fault _

end Engines

end Congruence

end Vimlet
