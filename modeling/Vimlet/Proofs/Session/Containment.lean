import Vimlet.Proofs.Namespace.Values
import Vimlet.Proofs.Regime.Statement

/-!
# Containers stay out of themselves

Storing a container directly into itself is refused by every operation but `map`, which stores
whatever its callback gives. So scripts keep all containers out of themselves as long as no callback
of `map` gives the container that `map` is at work on.
-/

namespace Vimlet

open Run Value

variable {σ α : Type}
variable {before after : Heap} {handle : Handle}
variable {host : Host σ} {session : Session σ} {value : Value} {heap : Heap}
  {vars : Namespace Value}

/-- No container is directly an element of itself. -/
def Heap.Proper (heap : Heap) : Prop := ∀ handle : Handle, handle.value ∉ heap.contents handle

/-- Every container that scripts can get at is one of the heap. -/
structure Session.Linked (host : Host σ) (session : Session σ) : Prop where
  closed : session.heap.Closed
  vars : session.vars.All (·.In session.heap)
  options {name value} : host.option name session.host = .ok value → value.In session.heap

/-- `map` does not store a container into itself. -/
def Event.StaysOut : Event → Prop
  | .store target value => value.handle? ≠ some target
  | _ => True

instance : DecidablePred Event.StaysOut := fun event =>
  match event with
  | .store target value => inferInstanceAs (Decidable (value.handle? ≠ some target))
  | .statement _ => .isTrue trivial
  | .call _ _ => .isTrue trivial

/-- A session that is linked and has no container in itself stays so, and its containers stay. -/
def containment (host : Host σ) : Regime σ where
  holds session := session.Linked host ∧ session.heap.Proper
  lasts before after := before.Linked host ∧ before.heap.Proper →
    (after.Linked host ∧ after.heap.Proper) ∧
      ∀ handle : Handle, handle.In before.heap → handle.In after.heap
  owns heap value := value.In heap
  guarded := True
  lenient := False
  permits event _ := event.StaysOut

/-- The handlers of a host keep containers out of themselves, and its outputs leave the options. -/
structure Host.Contains (host : Host σ) : Prop where
  echo (message name : String) (state : σ) :
    host.option name (host.echo message state) = host.option name state
  setSilent (silent : Bool) (name : String) (state : σ) :
    host.option name (host.setSilent silent state) = host.option name state
  command (id : Nat) (range : LineRange) (bang : Bool) (params : String) {session} :
    (containment host).holds session →
    (containment host).Ends session (fun _ _ => True) (host.command id range bang params session)
  function (id : Nat) {args session} : (containment host).holds session →
    (∀ arg ∈ args, arg.In session.heap) →
    (containment host).Ends session (fun heap value => value.In heap) (host.function id args session)

/-! ### Changes of the heap -/

theorem Value.In.of_handles (handles : ∀ handle : Handle, handle.In before → handle.In after)
    (within : value.In before) : value.In after :=
  fun handle handle_eq => handles handle (within handle handle_eq)

theorem Heap.Proper.write (proper : before.Proper) (writes : before.Writes handle after)
    (outside : ∀ value ∈ after.contents handle, value ≠ handle.value) : after.Proper := by
  intro other mem
  by_cases same : other = handle
  · subst same
    exact outside _ mem rfl
  · rw [writes.others other same] at mem
    exact proper other mem

theorem Heap.Closed.write (closed : before.Closed) (writes : before.Writes handle after)
    (within : ∀ value ∈ after.contents handle, value.In before) : after.Closed := by
  intro other value mem
  refine .of_handles (fun handle within => (writes.handles handle).mpr within) ?_
  by_cases same : other = handle
  · subst same
    exact within value mem
  · rw [writes.others other same] at mem
    exact closed other value mem

theorem Heap.Makes.grows (makes : before.Makes handle after) (other : Handle)
    (within : other.In before) : other.In after :=
  (makes.handles other).mpr (.inl within)

theorem Heap.Proper.make (proper : before.Proper) (makes : before.Makes handle after)
    (within : ∀ value ∈ after.contents handle, value.In before) : after.Proper := by
  intro other mem
  by_cases same : other = handle
  · subst same
    exact makes.new (within _ mem other (by cases other <;> rfl))
  · rw [makes.others other same] at mem
    exact proper other mem

theorem Heap.Closed.make (closed : before.Closed) (makes : before.Makes handle after)
    (within : ∀ value ∈ after.contents handle, value.In before) : after.Closed := by
  intro other value mem
  refine .of_handles makes.grows ?_
  by_cases same : other = handle
  · subst same
    exact within value mem
  · rw [makes.others other same] at mem
    exact closed other value mem

theorem Heap.not_proper_of_handle (handle : Handle)
    (inside : some handle ∈ (heap.contents handle).map handle?) : ¬heap.Proper := by
  obtain ⟨value, mem, is_handle⟩ := List.mem_map.mp inside
  intro proper
  refine proper handle ?_
  cases value <;> cases is_handle <;> exact mem

/-! ### Sessions -/

section Sessions

theorem Session.Linked.withVars (linked : session.Linked host)
    (bound : vars.All (·.In session.heap)) : Session.Linked host { session with vars } :=
  ⟨linked.closed, bound, linked.options⟩

/-- Another heap with at least the same containers. -/
theorem Session.Linked.withHeap (linked : session.Linked host) (closed : heap.Closed)
    (handles : ∀ handle : Handle, handle.In session.heap → handle.In heap) :
    Session.Linked host { session with heap } :=
  ⟨closed, linked.vars.mono fun _ => .of_handles handles, fun found =>
    .of_handles handles (linked.options found)⟩

end Sessions

/-! ### Steps and layers -/

namespace containment

theorem lasts_of_eq {before after} (heap : after.heap = before.heap)
    (vars : after.vars = before.vars)
    (options : ∀ name, host.option name after.host = host.option name before.host) :
    (containment host).lasts before after := by
  rintro ⟨linked, proper⟩
  refine ⟨⟨⟨heap ▸ linked.closed, ?_, fun found => ?_⟩, heap ▸ proper⟩, fun handle within => ?_⟩
  · rw [heap, vars]
    exact linked.vars
  · rw [options] at found
    rw [heap]
    exact linked.options found
  · rwa [heap]

theorem lasts_of_vars (bound : session.Linked host → vars.All (·.In session.heap)) :
    (containment host).lasts session { session with vars } :=
  fun held => ⟨⟨held.1.withVars (bound held.1), held.2⟩, fun _ within => within⟩

variable {inner : Session σ}

/-- A layer that starts and ends in sessions of the regime, and does nothing to the heap itself. -/
theorem around {leave : Session σ → Session σ} (held : (containment host).holds inner)
    (inner_heap : inner.heap = session.heap) (left_heap : ∀ after, (leave after).heap = after.heap)
    (leaves : ∀ {after : Session σ}, (containment host).holds after →
      (∀ handle : Handle, handle.In session.heap → handle.In after.heap) →
      (containment host).holds (leave after)) : (containment host).Around session inner leave where
  holds := held
  lasts {after} lasts _ := by
    obtain ⟨held_after, handles⟩ := lasts held
    rw [inner_heap] at handles
    refine ⟨leaves held_after handles, fun handle within => ?_⟩
    rw [left_heap]
    exact handles handle within

/-- What a layer does to variables keeps to the regime if it does so for every property. -/
theorem holds_withVars (held : (containment host).holds session) (heap : inner.heap = session.heap)
    (state : inner.host = session.host) (vars : inner.vars.All (·.In session.heap)) :
    (containment host).holds inner := by
  obtain ⟨linked, proper⟩ := held
  refine ⟨⟨heap ▸ linked.closed, heap ▸ vars, fun found => ?_⟩, heap ▸ proper⟩
  rw [state] at found
  rw [heap]
  exact linked.options found

theorem holds_withHost (held : (containment host).holds session) (heap : inner.heap = session.heap)
    (vars : inner.vars = session.vars)
    (options : ∀ name, host.option name inner.host = host.option name session.host) :
    (containment host).holds inner :=
  ((lasts_of_eq heap vars options) held).1

theorem declared {bound} (held : (containment host).holds session)
    (owned : ∀ entry ∈ bound, entry.2.In session.heap) :
    (containment host).holds (left (bindAll declare bound session)) ∧
      (left (bindAll declare bound session)).heap = session.heap := by
  induction bound generalizing session with
  | nil => exact ⟨held, rfl⟩
  | cons first rest ih =>
    have opened : bindAll declare (first :: rest) session =
        (declare first.1 first.2 >>= fun _ => bindAll declare rest) session := rfl
    cases changed : session.vars.declare first.1 first.2 with
    | error cause =>
      have stops : declare first.1 first.2 session = .error (.fault cause) session := by
        rw [declare, get_bind, changed]
        rfl
      rw [opened, bind_error stops]
      exact ⟨held, rfl⟩
    | ok vars =>
      have declares : declare first.1 first.2 session = .ok () { session with vars } := by
        rw [declare, get_bind, changed]
        rfl
      rw [opened, bind_ok declares]
      have bound := held.1.vars.declare (owned first List.mem_cons_self) changed
      exact ih ⟨held.1.withVars bound, held.2⟩ fun entry mem =>
        owned entry (List.mem_cons_of_mem _ mem)

theorem holds_setCallback {key} (held : (containment host).holds session)
    (key_in : key.In session.heap) (value_in : value.In session.heap) :
    (containment host).holds (session.setCallback key value) :=
  holds_withVars held rfl rfl ((held.1.vars.insertBuiltin key_in "key").insertBuiltin value_in "val")

theorem builtin_in (linked : session.Linked host) (name : String) :
    (session.builtin name).In session.heap := by
  unfold Session.builtin
  cases found : session.vars.builtins.get? name with
  | none => exact in_of_scalar rfl
  | some value => exact linked.vars.builtins value (Table.mem_values_of_get? found)

theorem holds_leave (held : (containment host).holds session) :
    (containment host).holds session.leave :=
  holds_withVars held rfl rfl held.1.vars.leave

theorem kept (contains : host.Contains) (message : String) :
    (containment host).Kept host (.stopping (fun event _ => event.StaysOut) message)
      (.stopping (fun event there => event.StaysOut ∧ there.heap.Proper) message) where
  refl _ held := ⟨held, fun _ within => within⟩
  trans before after held :=
    ⟨(after (before held).1).1, fun handle within =>
      (after (before held).1).2 handle ((before held).2 handle within)⟩
  lasts_holds lasts held := (lasts held).1
  lasts_owns lasts held owned := .of_handles (lasts held).2 owned
  owns_scalar := in_of_scalar
  owns_in _ owned := owned
  owns_contents handle held := held.1.closed handle
  owns_variable held found := held.1.vars.find? found
  owns_option held found := held.1.options found
  fits_contents held mem _ same := held.2 _ (same ▸ mem)
  write held writes storable _ := by
    have handles (handle : Handle) := (writes.handles handle).mpr
    have closed := held.1.closed.write writes fun value mem => (storable value mem).1
    have proper := held.2.write writes fun value mem => (storable value mem).2 trivial
    exact ⟨⟨held.1.withHeap closed handles, proper⟩, handles⟩
  make held makes owned := by
    have closed := held.1.closed.make makes owned
    have proper := held.2.make makes owned
    refine ⟨fun _ => ⟨⟨held.1.withHeap closed makes.grows, proper⟩, makes.grows⟩, ?_⟩
    exact Handle.value_in.mpr ((makes.handles _).mpr (.inr rfl))
  echo _ message := lasts_of_eq rfl rfl fun name => contains.echo message name _
  trace _ _ := lasts_of_eq rfl rfl fun _ => rfl
  patience _ _ := lasts_of_eq rfl rfl fun _ => rfl
  line _ _ := lasts_of_eq rfl rfl fun _ => rfl
  event event held :=
    Regime.stopping_event ⟨fun out => ⟨out, held.2⟩, And.left⟩ And.left
      (lasts_of_eq rfl rfl fun _ => rfl)
  store {_ target _} permitted _ same := permitted (same ▸ by cases target <;> rfl)
  script id held :=
    around (holds_withVars held rfl rfl (held.1.vars.setScript _)) rfl (fun _ => rfl)
      fun held_after _ => holds_withVars held_after rfl rfl (held_after.1.vars.setScript _)
  callback held key_in value_in :=
    around (holds_setCallback held key_in value_in) rfl (fun _ => rfl) fun held_after handles =>
      holds_setCallback held_after (.of_handles handles (builtin_in held.1 _))
        (.of_handles handles (builtin_in held.1 _))
  enclosed {session} held :=
    around (holds_withHost held session.begin_heap session.begin_vars fun _ => by
      rw [session.begin_host]) session.begin_heap (fun _ => rfl)
      fun held_after _ => holds_withHost held_after rfl rfl fun _ => rfl
  unwound {session} held _ :=
    around (holds_withHost held session.begin_heap session.begin_vars fun _ => by
      rw [session.begin_host]) session.begin_heap (fun _ => rfl)
      fun held_after _ => holds_withVars held_after rfl rfl (held_after.1.vars.cutTo _)
  silent held :=
    around (holds_withHost held rfl rfl fun name => contains.setSilent _ name _) rfl (fun _ => rfl)
      fun held_after _ => holds_withHost held_after rfl rfl fun name => contains.setSilent _ name _
  unsilent held :=
    around (holds_withHost held rfl rfl fun name => contains.setSilent _ name _) rfl (fun _ => rfl)
      fun held_after _ => holds_withHost held_after rfl rfl fun name => contains.setSilent _ name _
  loop held :=
    around (holds_withHost held rfl rfl fun _ => rfl) rfl (fun _ => rfl)
      fun held_after _ => holds_withHost held_after rfl rfl fun _ => rfl
  frame {session _ _ pattern item} _ _ _ held owned := by
    have entered : (containment host).holds (session.enter false) :=
      holds_withVars held rfl rfl (held.1.vars.enter false)
    have contents (handle : Handle) :
        (containment host).Owned session.heap (session.heap.contents handle) :=
      held.1.closed handle
    have parts := Regime.owned_bindings (in_of_scalar rfl) contents pattern owned
    obtain ⟨inside, same_heap⟩ := declared entered parts
    rw [left_bindPattern]
    exact around inside same_heap (fun _ => rfl) fun held_after _ => holds_leave held_after
  call {session _ function args} _ held owned _ _ := by
    have entered : (containment host).holds session.enterFunction :=
      holds_withVars held rfl rfl (held.1.vars.enter true)
    obtain ⟨inside, same_heap⟩ := declared entered fun entry mem =>
      owned entry.2 (List.of_mem_zip mem).2
    exact around inside same_heap (fun _ => rfl) fun held_after _ =>
      holds_withVars held_after rfl rfl held_after.1.vars.leave
  assign _ _ _ owned inserted := lasts_of_vars fun linked => linked.vars.insert owned inserted
  unlet _ _ _ _ removed := lasts_of_vars fun linked => linked.vars.remove removed
  define _ _ _ _ _ _ := lasts_of_eq rfl rfl fun _ => rfl
  command _ _ _ held := contains.command _ _ _ _ held
  function id held owned := contains.function id held owned

end containment

/-! ### The guards -/

/-- The functions and the assignment that store into a container do not store it into itself. -/
structure Handle.Refused (target : Handle) (heap : Heap) : Prop where
  add (cell : Nat) : target = .list cell →
    ContainerFunction.apply .add [target.value, target.value] heap =
      .error (.fault (.cyclicReference .list)) heap
  insert (cell : Nat) (place : List Value) : target = .list cell →
    ContainerFunction.apply .insert (target.value :: target.value :: place) heap =
      .error (.fault (.cyclicReference .list)) heap
  extend (source : Handle) (place : List Value) : source.value.kind = target.value.kind →
    target.value ∈ heap.contents source →
    ContainerFunction.apply .extend (target.value :: source.value :: place) heap =
      .error (.fault (.cyclicReference target.value.kind)) heap
  assign (key : Value) :
    Mem.setItem target.value key target.value heap =
      .error (.fault (.cyclicReference target.value.kind)) heap

theorem Handle.same_value (target : Handle) : target.value.same target.value = true := by
  cases target <;> exact beq_self_eq_true _

theorem Handle.any_same_value {target : Handle} {values : List Value}
    (mem : target.value ∈ values) : values.any (·.same target.value) = true :=
  List.any_eq_true.mpr ⟨_, mem, target.same_value⟩

theorem Handle.refused (target : Handle) (heap : Heap) : target.Refused heap where
  add cell is_list := by
    subst is_list
    exact congrFun (if_pos (Handle.list cell).same_value) heap
  insert cell place is_list := by
    subst is_list
    exact congrFun (if_pos (Handle.list cell).same_value) heap
  extend source place same_kind mem := by
    cases target with
    | list cell =>
      cases source with
      | object => cases same_kind
      | list source => exact congrFun (if_pos (Handle.any_same_value mem)) heap
    | object cell =>
      cases source with
      | list => cases same_kind
      | object source => exact congrFun (if_pos (Handle.any_same_value mem)) heap
  assign key := congrFun (if_pos target.same_value) heap

/-! ### New sessions -/

section New

variable (state : σ) (timeout : Float)

theorem Session.new_contents (handle : Handle) :
    (Session.new state timeout).heap.contents handle = [] := by
  cases handle with
  | list cell => cases cell <;> rfl
  | object cell => rfl

theorem Session.new_proper : (Session.new state timeout).heap.Proper := fun handle => by
  rw [new_contents]
  exact List.not_mem_nil

theorem Session.new_linked
    (scalars : ∀ name value, host.option name state = .ok value → value.handle? = none) :
    (Session.new state timeout).Linked host where
  closed handle := by
    rw [new_contents]
    exact List.forall_mem_nil _
  vars := by
    refine ⟨nofun, Table.forall_values_ofList ?_, nofun, nofun, nofun, nofun⟩
    refine List.forall_mem_append.mpr ⟨fun entry mem => ?_, ?_⟩
    · have scalar : ∀ entry ∈ builtinVariables, entry.2.handle? = none := by decide
      exact in_of_scalar (scalar entry mem)
    · refine List.forall_mem_singleton.mpr fun handle handle_eq => ?_
      obtain rfl := Option.some.inj handle_eq
      exact Nat.zero_lt_one
  options found := in_of_scalar (scalars _ _ found)

end New

theorem Recorder.host_contains : Recorder.host.Contains where
  echo message name recorder := by
    change Recorder.option name (Recorder.echo message recorder) = _
    unfold Recorder.echo
    split <;> rfl
  setSilent _ _ _ := rfl
  command _ _ _ _ _ held := ⟨⟨fun _ => ⟨held, fun _ within => within⟩, held, id⟩, nofun⟩
  function _ _ _ held _ := ⟨⟨fun _ => ⟨held, fun _ within => within⟩, held, id⟩, nofun⟩

theorem Recorder.new_linked (timeout : Float) :
    (Session.new ({} : Recorder) timeout).Linked Recorder.host :=
  Session.new_linked _ _ fun _ _ found => nomatch found

/-- At each event of a request and at its end no container is directly inside itself, if none was
before and no callback of `map` gives the container that `map` is at work on. The other operations
refuse to put a container into itself. -/
theorem perform_keeps_containers_apart {host : Host σ} (contains : host.Contains)
    {session : Session σ} (linked : session.Linked host) (proper : session.heap.Proper)
    (request : Request)
    (args_in : ∀ name args, request = .call name args → ∀ arg ∈ args, arg.In session.heap)
    (apart : EveryEvent host maxNesting request.performWith session fun event _ => event.StaysOut) :
    ((left (request.perform host session)).Linked host ∧
      (left (request.perform host session)).heap.Proper) ∧
    (EveryEvent host maxNesting request.performWith session fun event there =>
      event.StaysOut ∧ there.heap.Proper) ∧
    ∀ (target : Handle) (heap : Heap), target.Refused heap := by
  have agrees (message : String) :=
    (containment.kept contains message).request request args_in maxNesting ⟨linked, proper⟩
  have same (message : String) := (agrees message).1.resolve_right And.left
  refine ⟨?_, fun message => (same message).symm.trans (apart message), Handle.refused⟩
  have plain (message : String) :=
    (same message).symm.trans ((apart message).trans (congrFun (request.perform_eq host) _).symm)
  have ends := (agrees "").2
  rw [plain] at ends
  exact ends.leads.holds

/-- A List takes in a List that it is an element of: they are in each other, but not in themselves. -/
theorem perform_keeps_containers_apart_mutual :
    let session : Session Recorder := Session.new {} 5.0
    let request : Request := .run "let l = [1]\ncall map(l, '[l]')"
    let after := left (request.perform Recorder.host session)
    some (.list 2) ∈ (after.heap.contents (.list 1)).map handle? ∧
      some (.list 1) ∈ (after.heap.contents (.list 2)).map handle? ∧
      (after.Linked Recorder.host ∧ after.heap.Proper) ∧
      (EveryEvent Recorder.host maxNesting request.performWith session fun event there =>
        event.StaysOut ∧ there.heap.Proper) ∧
      ∀ (target : Handle) (heap : Heap), target.Refused heap :=
  ⟨by decide +kernel, by decide +kernel,
    perform_keeps_containers_apart Recorder.host_contains (Recorder.new_linked _)
      (Session.new_proper _ _) _ nofun
      (Request.everyEvent_of_unstopped _ "" (by rw [Probe.stopping_eq]; decide +kernel))⟩

/-- A callback of `map` gives the List that `map` is at work on, and `map` puts it into itself. -/
theorem perform_maps_list_into_itself :
    let session : Session Recorder := Session.new {} 5.0
    let request : Request := .run "let l = [1]\ncall map(l, 'l')"
    (match request.perform Recorder.host session with
      | .ok _ _ => true
      | .error _ _ => false) = true ∧
      session.heap.Proper ∧ ¬(left (request.perform Recorder.host session)).heap.Proper :=
  ⟨by decide +kernel, Session.new_proper _ _,
    Heap.not_proper_of_handle (.list 1) (by decide +kernel)⟩

end Vimlet
