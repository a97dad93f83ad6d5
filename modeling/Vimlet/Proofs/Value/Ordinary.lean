import Vimlet.Builtin.Container
import Vimlet.Builtin.Text
import Vimlet.Proofs.Session.Ending

/-!
# Stops that are no signals

Only statements leave functions, loops and iterations. Reading an expression and working on the heap
may stop, but never with one of their signals.
-/

namespace Vimlet

/-- A stop that leaves a function, a loop or an iteration. -/
def Stop.isSignal : Stop → Bool
  | .returning _ | .breaking | .continuing => true
  | .fault _ | .internal | .tooDeep => false

theorem Lexer.token_error {text stop} (failed : token text = .error stop) :
    stop.isSignal = false := by
  unfold token at failed
  split at failed
  · cases failed; rfl
  · split at failed
    · split at failed
      · cases failed
      · cases failed; rfl
    · split at failed
      · split at failed
        · cases failed
        · cases failed; rfl
      · split at failed
        · cases failed
        · split at failed
          · cases failed
          · cases failed; rfl

theorem Lexer.tokensWithin_error {fuel text stop} (failed : tokensWithin fuel text = .error stop) :
    stop.isSignal = false := by
  induction fuel generalizing text with
  | zero => cases failed
  | succ fuel ih =>
    unfold tokensWithin at failed
    split at failed
    · cases failed
    · cases first : token (text.dropWhile Text.isBlank) with
      | error cause =>
        rw [first] at failed
        cases failed
        exact token_error first
      | ok read =>
        cases rest : tokensWithin fuel read.2 with
        | error cause =>
          simp only [first, bind, Except.bind, rest] at failed
          cases failed
          exact ih rest
        | ok tokens =>
          simp only [first, bind, Except.bind, rest] at failed
          cases failed

theorem lex_error {text stop} (failed : lex text = .error stop) : stop.isSignal = false :=
  Lexer.tokensWithin_error failed

/-! ### Computations -/

/-- A computation stops with no signal. -/
def Ordinary {state α : Type} (act : EStateM Stop state α) : Prop :=
  ∀ ⦃before stop after⦄, act before = .error stop after → stop.isSignal = false

namespace Ordinary

variable {state α β : Type}

@[grind ←]
theorem pure (value : α) : Ordinary (Pure.pure value : EStateM Stop state α) := nofun

theorem throw {stop} (ordinary : stop.isSignal = false) :
    Ordinary (MonadExcept.throw stop : EStateM Stop state α) := by
  intro before stop after failed
  cases failed
  exact ordinary

@[grind ←]
theorem internal : Ordinary (MonadExcept.throw .internal : EStateM Stop state α) := throw rfl

@[grind ←]
theorem tooDeep : Ordinary (MonadExcept.throw .tooDeep : EStateM Stop state α) := throw rfl

@[grind ←]
theorem bind {act} {next : α → EStateM Stop state β} (first : Ordinary act)
    (second : ∀ value, Ordinary (next value)) : Ordinary (act >>= next) := by
  intro before stop after failed
  cases ended : act before with
  | ok value between =>
    rw [Run.bind_ok ended] at failed
    exact second value failed
  | error cause between =>
    rw [Run.bind_error ended] at failed
    cases failed
    exact first ended

@[grind ←]
theorem inspect {next : state → EStateM Stop state α} (second : ∀ before, Ordinary (next before)) :
    Ordinary (get >>= next) :=
  fun before _ _ failed => second before failed

@[grind ←]
theorem modify (change : state → state) : Ordinary (modify change : EStateM Stop state Unit) :=
  nofun

@[grind ←]
theorem set (after : state) : Ordinary (set after : EStateM Stop state Unit) := nofun

@[grind ←]
theorem map {act : EStateM Stop state α} (f : α → β) (ordinary : Ordinary act) :
    Ordinary (f <$> act) := by
  rw [map_eq_pure_bind]
  exact ordinary.bind fun _ => pure _

@[grind ←]
theorem mapM {f : α → EStateM Stop state β} (each : ∀ item, Ordinary (f item)) (items : List α) :
    Ordinary (items.mapM f) := by
  induction items with
  | nil => rw [List.mapM_nil]; exact pure _
  | cons item rest ih =>
    rw [List.mapM_cons]
    exact (each item).bind fun _ => ih.bind fun _ => pure _

@[grind ←]
theorem forM {f : α → EStateM Stop state PUnit} (each : ∀ item, Ordinary (f item))
    (items : List α) : Ordinary (items.forM f) := by
  induction items with
  | nil => exact pure _
  | cons item rest ih => exact (each item).bind fun _ => ih

@[grind ←]
theorem fault (cause : Fault) : Ordinary (Mem.fault cause : Mem α) := throw rfl

@[grind ←]
theorem ofExcept (result : Except Fault α) : Ordinary (Mem.ofExcept result) := by
  cases result with
  | ok value => exact pure value
  | error cause => exact fault cause

end Ordinary

namespace Mem

/-! ### Containers -/

@[grind ←]
theorem newList_ordinary (items : List Value) : Ordinary (newList items) := nofun

@[grind ←]
theorem newObject_ordinary (entries : Table String Value) : Ordinary (newObject entries) := nofun

theorem newRef_ordinary (name : String) (script : Option ScopeId) : Ordinary (newRef name script) :=
  nofun

@[grind ←]
theorem setList_ordinary (cell : Nat) (items : List Value) : Ordinary (setList cell items) := nofun

@[grind ←]
theorem growList_ordinary (cell : Nat) (items : List Value) : Ordinary (growList cell items) :=
  nofun

@[grind ←]
theorem setObject_ordinary (cell : Nat) (entries : Table String Value) :
    Ordinary (setObject cell entries) :=
  nofun

theorem index_ordinary (base key : Value) : Ordinary (index base key) := by
  unfold index
  grind

@[grind ←]
theorem bound_ordinary (value : Value) : Ordinary (bound value) := by
  unfold bound
  grind

theorem slice_ordinary (base first last : Value) : Ordinary (slice base first last) := by
  unfold slice
  grind

@[grind ←]
theorem newPairs_ordinary (entries : List (String × Value)) : Ordinary (newPairs entries) := by
  induction entries with grind [newPairs]

@[grind ←]
theorem elements_ordinary (value : Value) : Ordinary (elements value) := by
  unfold elements
  grind

@[grind ←]
theorem insert_ordinary (target item index : Value) : Ordinary (insert target item index) := by
  unfold insert
  grind

@[grind ←]
theorem append_ordinary (target item : Value) : Ordinary (append target item) := by
  unfold append
  grind

@[grind ←]
theorem extend_ordinary (target other place : Value) : Ordinary (extend target other place) := by
  unfold extend
  grind

theorem setItem_ordinary (target key item : Value) : Ordinary (setItem target key item) := by
  unfold setItem
  grind

@[grind ←]
theorem equal_ordinary (a b : Value) : Ordinary (equal a b) := by
  unfold equal
  grind

@[grind ←]
theorem listCell_ordinary (value : Value) : Ordinary (listCell value) := by
  unfold listCell
  grind

@[grind ←]
theorem objectCell_ordinary (value : Value) : Ordinary (objectCell value) := by
  unfold objectCell
  grind

@[grind ←]
theorem itemsOf_ordinary (value : Value) : Ordinary (itemsOf value) := by
  unfold itemsOf
  grind

@[grind ←]
theorem entriesOf_ordinary (value : Value) : Ordinary (entriesOf value) := by
  unfold entriesOf
  grind

@[grind ←]
theorem getItem_ordinary (container key default : Value) :
    Ordinary (getItem container key default) := by
  unfold getItem
  grind

@[grind ←]
theorem removeItem_ordinary (container key last : Value) :
    Ordinary (removeItem container key last) := by
  unfold removeItem
  split
  · grind
  · refine .bind (listCell_ordinary _) fun _ => .inspect fun _ => .bind (.ofExcept _) fun _ => ?_
    grind

@[grind ←]
theorem copyOf_ordinary (value : Value) : Ordinary (copyOf value) := by
  unfold copyOf
  grind

@[grind ←]
theorem newLike_ordinary (handle : Handle) : Ordinary (newLike handle) := by
  unfold newLike
  grind

@[grind ←]
theorem fillClone_ordinary (clones : Clones) (pair : Handle × Value) :
    Ordinary (fillClone clones pair) := by
  unfold fillClone
  grind

@[grind ←]
theorem deepCopy_ordinary (value : Value) : Ordinary (deepCopy value) := by
  unfold deepCopy newSerials
  grind

@[grind ←]
theorem uniqueFrom_ordinary (kept items : List Value) : Ordinary (uniqueFrom kept items) := by
  induction items generalizing kept with
  | nil => exact .pure _
  | cons item rest ih =>
    unfold uniqueFrom
    grind

@[grind ←]
theorem rangeList_ordinary (start stop step : Int) : Ordinary (rangeList start stop step) := by
  unfold rangeList
  grind

@[grind ←]
theorem searchFrom_ordinary (value : Value) (position : Int) (items : List Value) :
    Ordinary (searchFrom value position items) := by
  induction items generalizing position with grind [searchFrom]

@[grind ←]
theorem search_ordinary (items : List Value) (value : Value) (start : Int) :
    Ordinary (search items value start) := by
  unfold search
  grind

@[grind ←]
theorem countEqual_ordinary (value : Value) (items : List Value) :
    Ordinary (countEqual value items) := by
  induction items with grind [countEqual]

@[grind ←]
theorem extremum_ordinary (better : Int → Int → Bool) (container : Value) :
    Ordinary (extremum better container) := by
  unfold extremum
  grind

@[grind ←]
theorem flattenList_ordinary (items depth : Value) : Ordinary (flattenList items depth) := by
  unfold flattenList
  grind

@[grind ←]
theorem text_ordinary (value : Value) : Ordinary (text value) := .inspect fun _ => .pure _

/-! ### Data -/

mutual

@[grind ←]
theorem ofDocument_ordinary : ∀ document : Document, Ordinary (ofDocument document)
  | .null | .bool _ | .integer _ | .number _ | .text _ => by
    unfold ofDocument
    exact .pure _
  | .sequence items => by
    unfold ofDocument
    exact .bind (ofItems_ordinary items) fun _ => newList_ordinary _
  | .mapping entries => by
    unfold ofDocument
    exact .bind (ofEntries_ordinary entries) fun _ => newObject_ordinary _

theorem ofItems_ordinary : ∀ items : List Document, Ordinary (ofItems items)
  | [] => by
    unfold ofItems
    exact .pure _
  | item :: rest => by
    unfold ofItems
    exact .bind (ofDocument_ordinary item) fun _ => .bind (ofItems_ordinary rest) fun _ => .pure _

theorem ofEntries_ordinary : ∀ entries : List (String × Document), Ordinary (ofEntries entries)
  | [] => by
    unfold ofEntries
    exact .pure _
  | (_, item) :: rest => by
    unfold ofEntries
    exact .bind (ofDocument_ordinary item) fun _ => .bind (ofEntries_ordinary rest) fun _ =>
      .pure _

end

end Mem

/-! ### Functions -/

theorem ContainerFunction.apply_ordinary (f : ContainerFunction) (args : List Value) :
    Ordinary (f.apply args) := by
  unfold ContainerFunction.apply Mem.heap
  split <;> grind

namespace TextFunction

@[grind ←]
theorem repeatItems_ordinary {α : Type} (items : List α) (count : Int) :
    Ordinary (repeatItems items count) := by
  unfold repeatItems
  grind

@[grind ←]
theorem joinItems_ordinary (items : Value) (separator : String) :
    Ordinary (joinItems items separator) := by
  unfold joinItems
  grind

@[grind ←]
theorem splitToList_ordinary (text separator keepEmpty : Value) :
    Ordinary (splitToList text separator keepEmpty) := by
  unfold splitToList
  grind

theorem apply_ordinary (f : TextFunction) (args : List Value) : Ordinary (f.apply args) := by
  unfold apply Mem.display decodeJson
  split <;> grind

end TextFunction

/-! ### Steps -/

/-- What evaluations and statements do to the heap. -/
inductive HeapStep : {α : Type} → Mem α → Prop where
  | newList (items : List Value) : HeapStep (Mem.newList items)
  | newObject (entries : Table String Value) : HeapStep (Mem.newObject entries)
  | newRef (name : String) (script : Option ScopeId) : HeapStep (Mem.newRef name script)
  | index (base key : Value) : HeapStep (Mem.index base key)
  | slice (base first last : Value) : HeapStep (Mem.slice base first last)
  | elements (value : Value) : HeapStep (Mem.elements value)
  | setItem (target key item : Value) : HeapStep (Mem.setItem target key item)
  | equal (a b : Value) : HeapStep (Mem.equal a b)
  | listCell (value : Value) : HeapStep (Mem.listCell value)
  | itemsOf (value : Value) : HeapStep (Mem.itemsOf value)
  | setList (cell : Nat) (items : List Value) : HeapStep (Mem.setList cell items)
  | eraseEntry (cell : Nat) (entries : Table String Value) (key : String) :
      HeapStep (Mem.setObject cell (entries.erase key))
  | insertEntry (cell : Nat) (key : String) (value : Value) :
      HeapStep (do Mem.setObject cell (((← get).object cell).insert key value))
  | replaceItem (cell index : Nat) (value : Value) :
      HeapStep (modify (·.setItem cell index value) : Mem Unit)
  | pushText (cell : Nat) (text : String) :
      HeapStep (modify (·.pushItem cell (.str text)) : Mem Unit)
  | text (f : TextFunction) (args : List Value) : HeapStep (f.apply args)
  | container (f : ContainerFunction) (args : List Value) : HeapStep (f.apply args)

theorem HeapStep.ordinary {α : Type} {act : Mem α} (step : HeapStep act) : Ordinary act := by
  cases step with
  | newList items => exact Mem.newList_ordinary items
  | newObject entries => exact Mem.newObject_ordinary entries
  | newRef name script => exact Mem.newRef_ordinary name script
  | index base key => exact Mem.index_ordinary base key
  | slice base first last => exact Mem.slice_ordinary base first last
  | elements value => exact Mem.elements_ordinary value
  | setItem target key item => exact Mem.setItem_ordinary target key item
  | equal a b => exact Mem.equal_ordinary a b
  | listCell value => exact Mem.listCell_ordinary value
  | itemsOf value => exact Mem.itemsOf_ordinary value
  | setList | eraseEntry | replaceItem | pushText => exact .modify _
  | insertEntry => exact .inspect fun _ => .modify _
  | text f args => exact f.apply_ordinary args
  | container f args => exact f.apply_ordinary args

/-! ### Steps in a session -/

namespace Run

variable {σ α : Type}

theorem ofExcept_ordinary (result : Except Fault α) : Ordinary (Run.ofExcept result : Run σ α) := by
  cases result with
  | ok value => exact .pure value
  | error cause => exact .throw rfl

theorem onHeap_ordinary {act} (ordinary : Ordinary act) : Ordinary (Run.onHeap act : Run σ α) := by
  intro session stop after failed
  unfold Run.onHeap at failed
  dsimp only at failed
  cases ended : act session.heap with
  | ok value heap =>
    rw [ended] at failed
    cases failed
  | error cause heap =>
    rw [ended] at failed
    cases failed
    exact ordinary ended

theorem assign_ordinary (name : String) (value : Value) :
    Ordinary (Run.assign name value : Run σ Unit) :=
  .inspect fun _ => .bind (ofExcept_ordinary _) fun _ => .modify _

theorem declare_ordinary (name : String) (value : Value) :
    Ordinary (Run.declare name value : Run σ Unit) :=
  .inspect fun _ => .bind (ofExcept_ordinary _) fun _ => .modify _

theorem unlet_ordinary (name : String) : Ordinary (Run.unlet name : Run σ Bool) := by
  refine .inspect fun _ => .bind (ofExcept_ordinary _) fun found => ?_
  cases found with
  | some vars => exact .bind (.modify _) fun _ => .pure _
  | none => exact .pure _

theorem checkPatience_ordinary : Ordinary (Run.checkPatience : Run σ Unit) := by
  refine .inspect fun session => ?_
  split
  · exact .throw rfl
  · exact .set _

end Run

end Vimlet
