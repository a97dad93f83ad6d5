import Vimlet.Proofs.Regime.Expression

/-!
# Regimes of functions that evaluate and call

Callbacks get keys and values that belong to the heap. `filter` and `sort` put back what was in a
container before, and `map` puts in what the probe has let pass.
-/

namespace Vimlet

open Run

variable {σ α β : Type}
variable {start : Session σ} {args items : List Value} {key value container : Value}
  {entries : List (String × Value)}

namespace Regime

variable (regime : Regime σ)

/-- Two computations with a catchable reason to stop agree from a session on. A result has a
property, and so has a reason. -/
def Catches {ε : Type} (halted : ε → Prop) (fine : Heap → ε → Prop) (start : Session σ)
    (post : β → Prop) (act act' : ExceptT ε (Run σ) β) : Prop :=
  ∀ session, regime.Leads start session →
    (act.run session = act'.run session ∨
      regime.lenient ∧ ∃ reason after, act.run session = .ok (.error reason) after ∧
        halted reason) ∧
    regime.Ends session (fun heap answer => match answer with
      | .ok value => post value
      | .error reason => fine heap reason) (act'.run session)

/-- Two searches of a sort agree from a session on. -/
def Searches (start : Session σ) (β : Type) (post : β → Prop)
    (act act' : ExceptT Stop (Run σ) β) : Prop :=
  regime.Catches (· = .internal)
    (fun heap stop => ∀ value, stop = .returning value → regime.owns heap value) start post act act'

/-- Two steps of a sort agree from a session on. A step that stops leaves an arrangement of the
elements. -/
def Sorts (start : Session σ) (β : Type) (items : List Value) (post : β → Prop)
    (act act' : ExceptT (Sorting.Stopped Stop Value) (Run σ) β) : Prop :=
  regime.Catches (·.stop = .internal)
    (fun heap stopped => stopped.items.Perm items ∧
      ∀ value, stopped.stop = .returning value → regime.owns heap value) start post act act'

variable {regime}

namespace Kept

variable {host : Host σ} {probe probe' : Probe σ} (kept : regime.Kept host probe probe')
  {session : Session σ} {post : Heap → α → Prop} {engine engine' : Engine σ}
include kept

theorem enclosing {act act'} (agrees : regime.Agrees session.begin post act act') :
    regime.Agrees session post (Run.enclosed act) (Run.enclosed act') := by
  intro held
  have around := kept.enclosed held
  obtain ⟨alike, ends⟩ := agrees around.holds
  rw [enclosed_eq_after, enclosed_eq_after]
  refine ⟨alike.through (afterEnclosed session) fun after => ⟨_, rfl⟩, ?_⟩
  generalize act' session.begin = ending at ends ⊢
  unfold afterEnclosed
  split
  · split
    · rename_i outermost
      have left := kept.ends_around held (kept.unwound held outermost) (fun _ => rfl) ends
      exact ⟨left.1, nofun⟩
    · exact kept.ends_around held around (fun _ => rfl) ends
  · exact kept.ends_around held around (fun _ => rfl) ends

section Engines

variable (engines : regime.Engines engine engine')
include engines

theorem callValue (function : Value) (owned : regime.Owned session.heap args) :
    regime.Agrees session regime.owns (callValue engine function args)
      (callValue engine' function args) := by
  unfold Vimlet.callValue
  split
  · exact kept.callRef engines _ owned
  · exact inspect (engines.call session _ owned)

theorem executeText (value : Value) :
    regime.Accords session (executeText engine value) (executeText engine' value) :=
  inspect (kept.enclosing (engines.run _ _))

/-! ### Callbacks -/

theorem runCallback (callback : Value) (key_owned : regime.owns session.heap key)
    (value_owned : regime.owns session.heap value) :
    regime.Agrees session regime.owns (runCallback engine callback key value)
      (runCallback engine' callback key value) := by
  obtain ⟨ref, calls⟩ | evaluates := runCallback_cases (σ := σ) callback key value
  · rw [calls, calls]
    exact kept.callRef engines ref (.cons key_owned (.cons value_owned .nil))
  · intro held
    have around := kept.callback held key_owned value_owned
    rw [evaluates, evaluates]
    exact kept.layered held around (fun _ => rfl) (engines.eval _ _ around.holds)

theorem testCallback (callback : Value) (key_owned : regime.owns session.heap key)
    (value_owned : regime.owns session.heap value) :
    regime.Accords session (testCallback engine callback key value)
      (testCallback engine' callback key value) :=
  kept.bind (kept.runCallback engines callback key_owned value_owned) fun _ _ _ _ =>
    inspect (kept.pure trivial)

theorem filterEntries (callback : Value) (cell : Nat)
    (owned : regime.Owned session.heap (entries.map (·.2))) :
    regime.Accords session (filterEntries engine callback cell entries)
      (filterEntries engine' callback cell entries) := by
  induction entries generalizing session with
  | nil => exact kept.pure trivial
  | cons entry rest ih =>
    refine kept.bind (kept.testCallback engines callback (kept.owns_scalar rfl) owned.head)
      fun keeps after leads _ => ?_
    have rest_owned := owned.tail.later leads
    split
    · refine inspect fun held => ?_
      dsimp only
      split
      · exact kept.bind (kept.eraseEntry held cell _) (fun _ _ leads' _ =>
          ih (rest_owned.later leads')) held
      · exact kept.internal_bind held
    · exact ih rest_owned

theorem filterItems (callback : Value) (index : Nat) (owned : regime.Owned session.heap items) :
    regime.Agrees session (fun _ found => found ⊆ items) (filterItems engine callback index items)
      (filterItems engine' callback index items) := by
  induction items generalizing session index with
  | nil => exact kept.pure (List.Subset.refl _)
  | cons item rest ih =>
    refine kept.bind (kept.testCallback engines callback (kept.owns_scalar rfl) owned.head)
      fun keeps after leads _ => ?_
    refine kept.bind (ih _ (owned.tail.later leads)) fun more _ _ subset => kept.pure ?_
    split
    · exact List.cons_subset_cons _ subset
    · exact List.subset_cons_of_subset _ subset

theorem filterContainer (callback : Value) (owned : regime.owns session.heap container) :
    regime.Agrees session regime.owns (filterContainer engine container callback)
      (filterContainer engine' container callback) := by
  unfold Vimlet.filterContainer
  split
  · rename_i cell
    refine inspect fun held => ?_
    exact kept.bind (kept.filterEntries engines callback cell
      (kept.owns_contents (.object cell) held)) (fun _ _ leads _ => kept.pure (leads.owns owned)) held
  · refine kept.bind (kept.listCell container) fun cell after leads _ => ?_
    refine inspect fun held => ?_
    have storable := kept.storable_contents held (.list cell)
    refine kept.bind (kept.filterItems engines callback 0 (kept.owns_contents (.list cell) held))
      (fun found _ leads' subset => ?_) held
    exact kept.bind (kept.setList ((storable.subset subset).later leads')) fun _ _ leads'' _ =>
      kept.pure (leads''.owns (leads'.owns (leads.owns owned)))

theorem mapEntries (callback : Value) (cell : Nat)
    (owned : regime.Owned session.heap (entries.map (·.2))) :
    regime.Accords session (mapEntriesProbed probe engine callback cell entries)
      (mapEntriesProbed probe' engine' callback cell entries) := by
  induction entries generalizing session with
  | nil => exact kept.pure trivial
  | cons entry rest ih =>
    refine kept.bind (kept.runCallback engines callback (kept.owns_scalar rfl) owned.head)
      fun result after leads result_owned => ?_
    refine kept.seen _ fun permitted => ?_
    have stored : regime.Handles after (fun _ _ => True)
        (do Mem.setObject cell (((← get).object cell).insert entry.1 result)) :=
      heap_inspect fun held => kept.setObject (Table.forall_values_insert
        ⟨result_owned, kept.store permitted⟩ (kept.storable_contents held (.object cell)) _)
    exact kept.bind stored fun _ _ leads' _ => ih ((owned.tail.later leads).later leads')

theorem mapItems (callback : Value) (cell index : Nat) (owned : regime.Owned session.heap items) :
    regime.Accords session (mapItemsProbed probe engine callback cell index items)
      (mapItemsProbed probe' engine' callback cell index items) := by
  induction items generalizing session index with
  | nil => exact kept.pure trivial
  | cons item rest ih =>
    refine kept.bind (kept.runCallback engines callback (kept.owns_scalar rfl) owned.head)
      fun result after leads result_owned => ?_
    have rest_owned := owned.tail.later leads
    refine inspect ?_
    split
    · refine kept.seen _ fun permitted => ?_
      exact kept.bind (kept.replaceItem result_owned (kept.store permitted))
        fun _ _ leads' _ => ih _ (rest_owned.later leads')
    · exact kept.internal_bind

theorem mapContainer (callback : Value) (owned : regime.owns session.heap container) :
    regime.Agrees session regime.owns (mapContainerProbed probe engine container callback)
      (mapContainerProbed probe' engine' container callback) := by
  unfold mapContainerProbed
  split
  · rename_i cell
    refine inspect fun held => ?_
    exact kept.bind (kept.mapEntries engines callback cell
      (kept.owns_contents (.object cell) held)) (fun _ _ leads _ => kept.pure (leads.owns owned)) held
  · refine kept.bind (kept.listCell container) fun cell after leads _ => ?_
    refine inspect fun held => ?_
    exact kept.bind (kept.mapItems engines callback cell 0 (kept.owns_contents (.list cell) held))
      (fun _ _ leads' _ => kept.pure (leads'.owns (leads.owns owned))) held

end Engines

/-! ### Sorting -/

section Catches

variable {ε ε' : Type} {halted : ε → Prop} {fine : Heap → ε → Prop}

variable {result : β → Prop}

theorem catches_pure {value} (good : result value) :
    regime.Catches halted fine start result (Pure.pure value) (Pure.pure value) :=
  fun _ leads => ⟨.inl rfl, kept.leads_self leads.holds, good⟩

theorem catches_bind {middle : α → Prop} {act act'} {next next' : α → ExceptT ε (Run σ) β}
    (first : regime.Catches halted fine start middle act act')
    (second : ∀ value, middle value →
      regime.Catches halted fine start result (next value) (next' value)) :
    regime.Catches halted fine start result (act >>= next) (act' >>= next') := by
  intro session leads
  obtain ⟨alike, ends⟩ := first session leads
  constructor
  · obtain same | ⟨lenient, reason, after, halts, is_halted⟩ := alike
    · cases ended : act'.run session with
      | ok answer after =>
        rw [ended] at ends
        cases answer with
        | ok value =>
          have continues := (second value ends.2 after (kept.leads_trans leads ends.1)).1
          have left : (act >>= next).run session = (next value).run after :=
            bind_ok (same.trans ended)
          have right : (act' >>= next').run session = (next' value).run after :=
            bind_ok ended
          rwa [left, right]
        | error reason =>
          have left : (act >>= next).run session = .ok (.error reason) after :=
            bind_ok (same.trans ended)
          have right : (act' >>= next').run session = .ok (.error reason) after :=
            bind_ok ended
          exact .inl (left.trans right.symm)
      | error stop after =>
        exact .inl ((bind_error (same.trans ended)).trans (bind_error ended).symm)
    · exact .inr ⟨lenient, reason, after, bind_ok halts, is_halted⟩
  · refine kept.ends_bind ends fun answer after _ leads' good => ?_
    cases answer with
    | ok value => exact (second value good after (kept.leads_trans leads leads')).2
    | error reason => exact ⟨kept.leads_self leads'.holds, good⟩

theorem catches_adapt {halted' : ε' → Prop} {fine' : Heap → ε' → Prop} {act act'} (change : ε → ε')
    (halts : ∀ reason, halted reason → halted' (change reason))
    (stays : ∀ heap reason, fine heap reason → fine' heap (change reason))
    (agrees : regime.Catches halted fine start result act act') :
    regime.Catches halted' fine' start result (act.adapt change) (act'.adapt change) := by
  have adapted (act : ExceptT ε (Run σ) β) : (act.adapt change).run =
      act.run >>= fun answer => Pure.pure (answer.mapError change) := rfl
  intro session leads
  obtain ⟨alike, ends⟩ := agrees session leads
  rw [adapted, adapted]
  constructor
  · obtain same | ⟨lenient, reason, after, stopped, is_halted⟩ := alike
    · refine .inl ?_
      cases ended : act'.run session with
      | ok answer after => rw [bind_ok (same.trans ended), bind_ok ended]
      | error stop after => rw [bind_error (same.trans ended), bind_error ended]
    · exact .inr ⟨lenient, change reason, after, bind_ok stopped, halts reason is_halted⟩
  · refine kept.ends_bind ends fun answer after _ leads' good => ?_
    refine ⟨kept.leads_self leads'.holds, ?_⟩
    cases answer with
    | ok value => exact good
    | error reason => exact stays after.heap reason good

end Catches

omit kept in
/-- A comparison whose reason to stop is caught. -/
theorem catches_attempt {act act'}
    (agrees : ∀ session, regime.Leads start session → regime.Accords session act act') :
    regime.Searches start β (fun _ => True) (ExceptT.mk (attempt act))
      (ExceptT.mk (attempt act')) := by
  intro session leads
  obtain ⟨alike, ends⟩ := agrees session leads leads.holds
  constructor
  · obtain same | ⟨lenient, after, stops⟩ := alike
    · refine .inl ?_
      change attempt act session = attempt act' session
      rw [attempt, attempt, same]
    · exact .inr ⟨lenient, .internal, after, attempt_error stops, rfl⟩
  · change regime.Ends session _ (attempt act' session)
    cases ended : act' session with
    | ok value after =>
      rw [ended] at ends
      rw [attempt_ok ended]
      exact ends
    | error stop after =>
      rw [ended] at ends
      rw [attempt_error ended]
      exact ends

/-- A sort keeps to the regime if its comparisons of the elements do. -/
theorem judgement (start : Session σ) :
    Sorting.Judgement (regime.Searches start) (regime.Sorts start) where
  search_pure := kept.catches_pure
  search_bind := kept.catches_bind
  sorting_pure := kept.catches_pure
  sorting_bind := kept.catches_bind
  among _ perm := kept.catches_adapt _ (fun _ => id) fun _ _ good => ⟨perm, good⟩
  within perm := kept.catches_adapt _ (fun _ => id) fun _ _ good =>
    ⟨Sorting.perm_replace good.1 perm, good.2⟩

theorem sortElements {order order' : Value → Value → Run σ Bool} (cell : Nat) {elements}
    (orders : ∀ session, regime.Owned session.heap elements → ∀ a ∈ elements, ∀ b ∈ elements,
      regime.Accords session (order a b) (order' a b))
    (storable : regime.Storable session.heap (.list cell) elements) :
    regime.Agrees session (fun _ sorted => sorted.Perm elements)
      (sortElements order cell elements) (sortElements order' cell elements) := by
  intro held
  have owned : regime.Owned session.heap elements := fun value mem => (storable value mem).1
  have asked (a : Value) (a_mem : a ∈ elements) (b : Value) (b_mem : b ∈ elements) :=
    catches_attempt fun after leads => orders after (owned.later leads) a a_mem b b_mem
  obtain ⟨alike, ends⟩ := (kept.judgement session).rearranges asked session (kept.leads_self held)
  constructor
  · obtain same | ⟨lenient, stopped, after, halts, is_halted⟩ := alike
    · refine .inl ?_
      simp only [Vimlet.sortElements, Bind.bind, EStateM.bind, same]
    · have thrown : ∃ last, (do
          onHeap (Mem.setList cell stopped.items)
          throw stopped.stop : Run σ (List Value)) after = .error .internal last :=
        is_halted ▸ ⟨_, rfl⟩
      obtain ⟨last, thrown⟩ := thrown
      exact .inr ⟨lenient, last, (bind_ok halts).trans thrown⟩
  · refine kept.ends_bind ends fun answer after _ leads good => ?_
    cases answer with
    | ok sorted => exact ⟨kept.leads_self leads.holds, good.perm.symm⟩
    | error stopped =>
      have arranged := (storable.later leads).subset good.1.subset
      refine kept.ends_bind (kept.setList arranged leads.holds).2 fun _ last _ leads' _ => ?_
      exact ⟨kept.leads_self leads'.holds, fun value returns =>
        leads'.owns (good.2 value returns)⟩

theorem sortOrder (engines : regime.Engines engine engine') (comparator : Value) {a b}
    (a_owned : regime.owns session.heap a) (b_owned : regime.owns session.heap b) :
    regime.Accords session (sortOrder engine comparator a b)
      (sortOrder engine' comparator a b) := by
  unfold Vimlet.sortOrder
  split
  · exact kept.pure trivial
  · exact kept.pure trivial
  · have compared := kept.callValue engines comparator (.cons a_owned (.cons b_owned .nil))
    refine kept.bind compared fun answer _ _ _ => ?_
    exact kept.bind (kept.converted _) fun _ _ _ _ => kept.pure trivial

theorem sortList (engines : regime.Engines engine engine') {items} (comparator : Value)
    (owned : regime.owns session.heap items) :
    regime.Agrees session regime.owns (sortList engine items comparator)
      (sortList engine' items comparator) := by
  refine kept.bind (kept.listCell items) fun cell start found _ => ?_
  refine inspect (inspect fun held => ?_)
  have storable := kept.storable_contents held (.list cell)
  refine kept.bind (kept.setList nofun) (fun _ empty emptied _ => ?_) held
  have sorting := kept.sortElements cell (fun session owned a a_mem b b_mem =>
    kept.sortOrder engines comparator (owned a a_mem) (owned b b_mem)) (storable.later emptied)
  refine kept.bind sorting fun arranged after sorted perm => ?_
  have whole := kept.leads_trans emptied sorted
  refine inspect (kept.bind (kept.setList ((storable.later whole).subset perm.subset))
    fun _ last filled _ => ?_)
  split
  · exact kept.internal
  · exact kept.pure (filled.owns (whole.owns (found.owns owned)))

/-! ### Assertions and references -/

theorem addError (message : String) :
    regime.Accords session (addError message) (addError message) := by
  refine inspect ?_
  split
  · rename_i cell _
    have fits : regime.Fits (.list cell) (.str message) := nofun
    exact kept.pushItem (kept.owns_scalar rfl) fits
  · exact kept.internal

theorem report (holds : Bool) (message : Value) (default : String) :
    regime.Complies session regime.owns (report holds message default) := by
  unfold Vimlet.report
  split
  · exact kept.pure (kept.owns_scalar rfl)
  · split
    · exact kept.bind (kept.addError _) fun _ _ _ _ => kept.pure (kept.owns_scalar rfl)
    · exact inspect (kept.bind (kept.addError _) fun _ _ _ _ => kept.pure (kept.owns_scalar rfl))

theorem makeRef (owned : regime.owns session.heap value) :
    regime.Complies session regime.owns (makeRef value) := by
  unfold Vimlet.makeRef
  split
  · exact kept.pure owned
  · refine inspect ?_
    dsimp only
    split
    · split
      · exact kept.newRef _ _
      · exact kept.fault _
    · split
      · exact kept.newRef _ _
      · exact kept.fault _

theorem nameExists (text : String) :
    regime.Accords session (nameExists text) (nameExists text) := by
  refine inspect ?_
  split
  · exact kept.pure trivial
  · split <;> exact kept.pure trivial

/-! ### Application -/

section Engines

variable (engines : regime.Engines engine engine') (owned : regime.Owned session.heap args)
include engines owned

/-- A function that evaluates or calls, and that is not `map` of a container. -/
theorem applyControl {f : ControlFunction}
    (other : ∀ target callback, f = .map → args ≠ [target, callback]) :
    regime.Agrees session regime.owns (f.apply engine args) (f.apply engine' args) := by
  unfold ControlFunction.apply
  split
  · exact inspect (kept.enclosing (engines.eval _ _))
  · exact kept.bind (kept.executeText engines _) fun _ _ _ _ => kept.pure (kept.owns_scalar rfl)
  · exact inspect (kept.bind (kept.executeText engines _) fun _ _ _ _ =>
      kept.pure (kept.owns_scalar rfl))
  · exact kept.bind (kept.itemsOf _) fun _ _ _ items_owned =>
      kept.callValue engines _ items_owned
  · exact kept.makeRef owned.head
  · exact inspect (kept.bind (kept.nameExists _) fun _ _ _ _ => kept.pure (kept.owns_scalar rfl))
  · exact kept.filterContainer engines _ owned.head
  · exact absurd rfl (other _ _ rfl)
  · exact kept.sortList engines _ owned.head
  · exact kept.bind (kept.equal _ _) fun _ _ _ _ => inspect (kept.report _ _ _)
  · exact kept.bind (kept.equal _ _) fun _ _ _ _ => inspect (kept.report _ _ _)
  · exact inspect (kept.report _ _ _)
  · exact inspect (kept.report _ _ _)
  · exact kept.internal

theorem applyBuiltin (f : Builtin) :
    regime.Agrees session regime.owns (f.applyProbed probe engine args)
      (f.applyProbed probe' engine' args) := by
  unfold Builtin.applyProbed
  split
  · exact kept.mapContainer engines _ owned.head
  · rename_i other
    cases f with
    | math f => exact kept.computed (MathFunction.apply_scalar f args)
    | text f => exact kept.applyText f
    | container f => exact kept.applyContainer f owned
    | control f =>
      exact kept.applyControl engines owned fun target callback is_map same =>
        other target callback (congrArg Builtin.control is_map) same

omit engines owned in
theorem checkArguments (signature : Signature) (args : List Value) :
    regime.Accords session (checkArguments signature args) (checkArguments signature args) := by
  unfold Vimlet.checkArguments
  split
  · exact kept.pure trivial
  · exact kept.fault _

end Engines

end Kept

end Regime

end Vimlet
