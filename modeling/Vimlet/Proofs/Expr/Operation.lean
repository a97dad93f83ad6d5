import Vimlet.Proofs.Expr.Tokens
import Vimlet.Proofs.Value.Transfer

/-!
# The operations of expressions

Each operation leaves the session as it was, but for new containers. If it gives a value in one heap
then it gives a value that corresponds to it in the other, for operands that correspond.
-/

namespace Vimlet

open Reduce Value

variable {σ : Type}
variable {α : Type} {start session after : Session σ} {left right heap : Heap}

/-! ### Operations in a heap that grows -/

def Session.withHeap (session : Session σ) (heap : Heap) : Session σ := { session with heap }

@[simp]
theorem Session.withHeap_heap (session : Session σ) (heap : Heap) :
    (session.withHeap heap).heap = heap := rfl

theorem Run.onHeap_ok {act : Mem α} {value} (ended : act session.heap = .ok value heap) :
    Run.onHeap act session = .ok value (session.withHeap heap) := by
  simp only [Run.onHeap, ended, Session.withHeap]

theorem Run.onHeap_eq_ok {act : Mem α} {value} :
    Run.onHeap act session = .ok value after ↔
      ∃ heap, act session.heap = .ok value heap ∧ after = session.withHeap heap := by
  constructor
  · intro done
    cases ended : act session.heap with
    | ok result heap =>
      rw [Run.onHeap_ok ended] at done
      cases done
      exact ⟨heap, rfl, rfl⟩
    | error stop heap =>
      simp only [Run.onHeap, ended] at done
      cases done
  · rintro ⟨heap, ended, rfl⟩
    exact Run.onHeap_ok ended

/-- A computation that gives a value leaves the session as it was, but for new containers. -/
def Run.Adds {α : Type} (act : Run σ α) : Prop :=
  ∀ session value after, act session = .ok value after →
    session.heap.Grows after.heap ∧ after = session.withHeap after.heap

namespace Run.Adds

variable {β : Type}

variable {act : Run σ α}

theorem of_unchanged
    (unchanged : ∀ session value after, act session = .ok value after → after = session) :
    act.Adds := by
  intro session value after done
  obtain rfl := unchanged session value after done
  exact ⟨.refl _, rfl⟩

theorem pure (value : α) : (Pure.pure value : Run σ α).Adds :=
  of_unchanged fun _ _ _ done => by cases done; rfl

theorem bind {next : α → Run σ β} (first : act.Adds) (second : ∀ value, (next value).Adds) :
    (act >>= next).Adds := by
  intro session value after done
  obtain ⟨middle, between, first_done, second_done⟩ := Run.bind_eq_ok.mp done
  obtain ⟨first_grows, first_eq⟩ := first session middle between first_done
  obtain ⟨second_grows, second_eq⟩ := second middle between value after second_done
  refine ⟨first_grows.trans second_grows, ?_⟩
  rw [second_eq, first_eq]
  rfl

theorem onHeap {act} (grows : ∀ heap value later, act heap = .ok value later → heap.Grows later) :
    (Run.onHeap act : Run σ α).Adds := by
  intro session value after done
  obtain ⟨heap, heap_done, rfl⟩ := Run.onHeap_eq_ok.mp done
  exact ⟨grows _ _ _ heap_done, rfl⟩

theorem ofExcept (result : Except Fault α) : (Run.ofExcept result : Run σ α).Adds :=
  of_unchanged fun _ _ _ done => by
    cases result <;> cases done
    rfl

theorem newList (items : List Value) : (Run.onHeap (Mem.newList items) : Run σ Value).Adds :=
  onHeap fun _ _ _ done => by cases done; exact .pushList _ _

theorem makeObject (entries : List (Value × Value)) :
    (Vimlet.makeObject entries : Run σ Value).Adds := by
  intro session value after done
  obtain ⟨_, _, ⟨⟩, made⟩ := Run.bind_eq_ok.mp done
  exact onHeap (fun _ _ _ done => by cases done; exact .pushObject _ _) _ _ _ made

theorem index (base key : Value) : (Run.onHeap (Mem.index base key) : Run σ Value).Adds :=
  onHeap fun _ _ _ done => Mem.index_heap done ▸ .refl _

theorem slice (base first last : Value) :
    (Run.onHeap (Mem.slice base first last) : Run σ Value).Adds :=
  onHeap fun _ _ _ => Mem.slice_grows

theorem equal (a b : Value) : (Run.onHeap (Mem.equal a b) : Run σ Bool).Adds := by
  refine onHeap fun heap answer later done => ?_
  obtain ⟨_, rfl⟩ := Mem.equal_eq_ok.mp done
  exact .refl _

theorem applyUnary (symbol : Op) (operand : Value) :
    (Reduce.applyUnary symbol operand : Run σ Value).Adds := by
  unfold Reduce.applyUnary
  split
  · exact ofExcept _
  · exact of_unchanged fun _ _ _ done => by cases done; rfl
  · split
    · exact pure operand
    · exact ofExcept _

theorem applyBinary (symbol : Op) (a b : Value) :
    (Reduce.applyBinary symbol a b : Run σ Value).Adds := by
  unfold Reduce.applyBinary
  split
  case h_11 | h_12 => exact (equal a b).bind fun _ => pure _
  case h_1 | h_2 | h_3 | h_4 | h_5 => exact ofExcept _
  case h_7 | h_8 | h_9 | h_10 => exact pure _
  all_goals exact of_unchanged fun _ _ _ done => by cases done; try rfl

/-- A heap that has grown grows on. -/
theorem finish (adds : act.Adds) {middle value} (grows : heap.Grows middle)
    (done : act (start.withHeap middle) = .ok value after) :
    heap.Grows after.heap ∧ after = start.withHeap after.heap ∧
      act (start.withHeap middle) = .ok value (start.withHeap after.heap) := by
  obtain ⟨grows_after, after_eq⟩ := adds _ _ _ done
  have same : after = start.withHeap after.heap := after_eq
  exact ⟨grows.trans grows_after, same, same ▸ done⟩

end Run.Adds

/-! ### Operations on values that correspond -/

/-- If a computation gives a value in the left heap, another one gives a value that corresponds to
it in the right heap. -/
def Follows (start : Session σ) (left right : Heap) (act other : Run σ Value) : Prop :=
  ∀ value later, act (start.withHeap left) = .ok value later →
    ∃ result after, other (start.withHeap right) = .ok result after ∧
      Correspond start.heap later.heap after.heap value result

namespace Follows

theorem onHeap {act other} (transfers : Transfers start.heap left right act other) :
    Follows start left right (Run.onHeap act) (Run.onHeap other) := by
  intro value later done
  obtain ⟨left_later, left_done, rfl⟩ := Run.onHeap_eq_ok.mp done
  obtain ⟨result, right_later, right_done, same⟩ := transfers value left_later left_done
  exact ⟨result, start.withHeap right_later, Run.onHeap_ok right_done, same⟩

theorem ofExcept {result other}
    (scalar : ∀ value, result = .ok value → value.handle? = none ∧ other = result) :
    Follows start left right (Run.ofExcept result) (Run.ofExcept other) := by
  intro value later done
  cases result with
  | error => cases done
  | ok computed =>
    cases done
    obtain ⟨no_handle, rfl⟩ := scalar value rfl
    exact ⟨value, start.withHeap right, rfl, .old (in_of_scalar no_handle)⟩

theorem answer {act other answer}
    (act_eq : act (start.withHeap left) = .ok (.bool answer) (start.withHeap left))
    (other_eq : other (start.withHeap right) = .ok (.bool answer) (start.withHeap right)) :
    Follows start left right act other := by
  intro value later done
  rw [act_eq] at done
  cases done
  exact ⟨_, _, other_eq, .old (in_of_scalar rfl)⟩

end Follows

namespace Twins

variable (twins : Twins start.heap left right) {a b other_a other_b : Value}
  (first : Correspond start.heap left right a other_a)
  (second : Correspond start.heap left right b other_b)
include twins

include first in
theorem applyUnary (symbol : Op) :
    Follows start left right (Reduce.applyUnary symbol a) (Reduce.applyUnary symbol other_a) := by
  have signed (twice : Value → Except Fault Value)
      (scalar : ∀ value, twice a = .ok value → a.handle? = none ∧ value.handle? = none) :
      Follows start left right (Run.ofExcept (twice a)) (Run.ofExcept (twice other_a)) := by
    refine .ofExcept fun value computed => ?_
    obtain ⟨a_scalar, value_scalar⟩ := scalar value computed
    rw [first.eq_of_scalar a_scalar]
    exact ⟨value_scalar, rfl⟩
  unfold Reduce.applyUnary
  split
  · exact signed negate fun _ => negate_ok
  · have truth_eq := twins.truthOf_eq first start.functionExists
    refine .answer rfl ?_
    change EStateM.Result.ok (bool !right.truthOf start.functionExists other_a) _ = _
    rw [← truth_eq]
    rfl
  · by_cases integer : a.isInteger = true
    · obtain rfl := first.eq_of_scalar (by cases a <;> first | rfl | cases integer)
      rw [if_pos integer]
      intro value later done
      cases done
      exact ⟨_, _, rfl, first⟩
    · have other_integer : ¬other_a.isInteger = true := by
        obtain rfl | ⟨_, container⟩ := first.eq_or_containers
        · exact integer
        · cases other_a <;> simp_all [isInteger, handle?]
      rw [if_neg integer, if_neg other_integer]
      refine signed (fun value => do (← value.negate).negate) fun value computed => ?_
      cases once : a.negate with
      | error => simp only [once, bind, Except.bind] at computed; cases computed
      | ok middle =>
        simp only [once, bind, Except.bind] at computed
        exact ⟨(negate_ok once).1, (negate_ok computed).2⟩

include first second

theorem equal {answer later}
    (done : Run.onHeap (Mem.equal a b) (start.withHeap left) = .ok answer later) :
    later = start.withHeap left ∧
      Run.onHeap (Mem.equal other_a other_b) (start.withHeap right) =
        .ok answer (start.withHeap right) := by
  obtain ⟨heap, heap_done, rfl⟩ := Run.onHeap_eq_ok.mp done
  obtain ⟨answered, rfl⟩ := Mem.equal_eq_ok.mp heap_done
  have other_answered : right.equal? other_a other_b = some answer :=
    (twins.equal?_eq first second).symm.trans answered
  exact ⟨rfl, Run.onHeap_ok (Mem.equal_eq_ok.mpr ⟨other_answered, rfl⟩)⟩

theorem applyBinary (symbol : Op) :
    Follows start left right (Reduce.applyBinary symbol a b)
      (Reduce.applyBinary symbol other_a other_b) := by
  have computed {onInts : Int → Int → Except Fault Int}
      {onNumbers : Float → Float → Except Fault Float} :
      Follows start left right (Run.ofExcept (arithmetic onInts onNumbers a b))
        (Run.ofExcept (arithmetic onInts onNumbers other_a other_b)) := by
    refine .ofExcept fun value done => ?_
    obtain ⟨a_scalar, b_scalar, value_scalar⟩ := arithmetic_ok done
    rw [first.eq_of_scalar a_scalar, second.eq_of_scalar b_scalar]
    exact ⟨value_scalar, rfl⟩
  have compared (result : Bool → Bool) :
      Follows start left right
        (do return .bool (result (← Run.onHeap (Mem.equal a b))))
        (do return .bool (result (← Run.onHeap (Mem.equal other_a other_b)))) := by
    intro value later done
    obtain ⟨answer, between, equal_done, made⟩ := Run.bind_eq_ok.mp done
    obtain ⟨rfl, other_done⟩ := twins.equal first second equal_done
    cases made
    exact ⟨_, _, Run.bind_ok other_done, .old (in_of_scalar rfl)⟩
  cases symbol with
  | times | divide | modulo | plus | minus => exact computed
  | dot =>
    intro value later done
    cases done
    refine ⟨_, start.withHeap right, rfl, ?_⟩
    simp only [Session.withHeap_heap, twins.text_eq first, twins.text_eq second]
    exact .old (in_of_scalar rfl)
  | less => exact .answer rfl (by rw [first.less_eq second]; rfl)
  | lessEqual => exact .answer rfl (by rw [first.lessEq_eq second]; rfl)
  | greater => exact .answer rfl (by rw [second.less_eq first]; rfl)
  | greaterEqual => exact .answer rfl (by rw [second.lessEq_eq first]; rfl)
  | equal => exact compared id
  | notEqual => exact compared not
  | bang | assign | comma | leftBracket | rightBracket | leftBrace | rightBrace | leftParen
  | rightParen | colon | ampersand => exact fun _ _ done => nomatch done

omit first second

theorem makeObject {entries others}
    (same : List.Forall₂ (fun entry other => Correspond start.heap left right entry.1 other.1 ∧
      Correspond start.heap left right entry.2 other.2) entries others) :
    Follows start left right (Vimlet.makeObject entries) (Vimlet.makeObject others) := by
  refine Follows.onHeap (twins.newObject (ofList_related ?_))
  refine List.forall₂_map_left_iff.mpr (List.forall₂_map_right_iff.mpr (same.imp ?_))
  exact fun entry other same => ⟨twins.text_eq same.1, same.2⟩

end Twins

end Vimlet
