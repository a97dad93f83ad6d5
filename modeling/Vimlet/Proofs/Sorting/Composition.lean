import Mathlib.Tactic.Choose
import Vimlet.Proofs.Sorting.Arrangement

/-!
# What sorting does to its comparisons

A sort only asks comparisons one after the other. So what holds of each comparison and of
computations that are put together from such ones holds of the whole sort, and sorts with related
comparisons are related.
-/

namespace Vimlet.Sorting

variable {m : Type → Type} [Monad m] {ε α : Type}

/-- Relations between searches and between steps of a sort that hold of computations made in the
same way of related ones. -/
structure Congruence (search : ∀ β : Type, ExceptT ε m β → ExceptT ε m β → Prop)
    (sorting : ∀ β : Type, ExceptT (Stopped ε α) m β → ExceptT (Stopped ε α) m β → Prop) :
    Prop where
  search_pure {β : Type} (value : β) : search β (pure value) (pure value)
  search_bind {β γ : Type} {act act'} {next next' : β → ExceptT ε m γ} :
    search β act act' → (∀ value, search γ (next value) (next' value)) →
    search γ (act >>= next) (act' >>= next')
  sorting_pure {β : Type} (value : β) : sorting β (pure value) (pure value)
  sorting_bind {β γ : Type} {act act'} {next next' : β → ExceptT (Stopped ε α) m γ} :
    sorting β act act' → (∀ value, sorting γ (next value) (next' value)) →
    sorting γ (act >>= next) (act' >>= next')
  among {β : Type} {act act'} (items : Unit → List α) :
    search β act act' → sorting β (among items act) (among items act')
  within {β : Type} {act act'} (before after : List α) :
    sorting β act act' → sorting β (within before after act) (within before after act')

/-! ### Computations of values with a property -/

/-- Two computations are related as computations of values with a property. -/
def Restricted (related : ∀ β : Type, ExceptT ε m β → ExceptT ε m β → Prop) (β : Type)
    (post : β → Prop) (act act' : ExceptT ε m β) : Prop :=
  ∃ inner inner' : ExceptT ε m {value // post value},
    act = Subtype.val <$> inner ∧ act' = Subtype.val <$> inner' ∧ related _ inner inner'

theorem adapt_map [LawfulMonad m] {ε' β γ : Type} (change : ε → ε') (f : β → γ)
    (act : ExceptT ε m β) : (f <$> act).adapt change = f <$> act.adapt change := by
  apply ExceptT.ext
  rw [ExceptT.run_map]
  change Except.mapError change <$> (f <$> act).run =
    Except.map f <$> Except.mapError change <$> act.run
  rw [ExceptT.run_map, Functor.map_map, Functor.map_map]
  congr 1
  funext answer
  cases answer <;> rfl

namespace Restricted

variable [LawfulMonad m] {related : ∀ β : Type, ExceptT ε m β → ExceptT ε m β → Prop} {β γ : Type}

theorem pure (pures : ∀ {β : Type} (value : β), related β (pure value) (pure value))
    {post : β → Prop} {value} (has : post value) :
    Restricted related β post (Pure.pure value) (Pure.pure value) :=
  ⟨Pure.pure ⟨value, has⟩, Pure.pure ⟨value, has⟩, by rw [map_pure], by rw [map_pure], pures _⟩

variable (binds : ∀ {β γ : Type} {act act' : ExceptT ε m β} {next next' : β → ExceptT ε m γ},
  related β act act' → (∀ value, related γ (next value) (next' value)) →
  related γ (act >>= next) (act' >>= next'))
include binds

variable {act act' : ExceptT ε m β}

theorem bind {middle : β → Prop} {post : γ → Prop} {next next' : β → ExceptT ε m γ}
    (first : Restricted related β middle act act')
    (second : ∀ value, middle value → Restricted related γ post (next value) (next' value)) :
    Restricted related γ post (act >>= next) (act' >>= next') := by
  obtain ⟨inner, inner', rfl, rfl, inners⟩ := first
  choose later later' next_eq next'_eq laters using second
  refine ⟨inner >>= fun value => later _ value.2, inner' >>= fun value => later' _ value.2, ?_, ?_,
    binds inners fun value => laters _ value.2⟩
  · rw [bind_map_left, map_bind]
    exact bind_congr fun value => next_eq _ value.2
  · rw [bind_map_left, map_bind]
    exact bind_congr fun value => next'_eq _ value.2

variable (pures : ∀ {β : Type} (value : β), related β (Pure.pure value) (Pure.pure value))
include pures

theorem of_related (acts : related β act act') : Restricted related β (fun _ => True) act act' := by
  refine ⟨(fun value => ⟨value, trivial⟩) <$> act, (fun value => ⟨value, trivial⟩) <$> act', ?_, ?_,
    ?_⟩
  · rw [Functor.map_map, id_map']
  · rw [Functor.map_map, id_map']
  · rw [map_eq_pure_bind, map_eq_pure_bind]
    exact binds acts fun _ => pures _

theorem forget {post : β → Prop} (restricted : Restricted related β post act act') :
    related β act act' := by
  obtain ⟨inner, inner', rfl, rfl, inners⟩ := restricted
  rw [map_eq_pure_bind, map_eq_pure_bind]
  exact binds inners fun _ => pures _

end Restricted

namespace Congruence

variable [LawfulMonad m] {search : ∀ β : Type, ExceptT ε m β → ExceptT ε m β → Prop}
  {sorting : ∀ β : Type, ExceptT (Stopped ε α) m β → ExceptT (Stopped ε α) m β → Prop}
  (congruence : Congruence search sorting)
include congruence

theorem judgement : Judgement (Restricted search) fun β (_ : List α) => Restricted sorting β where
  search_pure := .pure congruence.search_pure
  search_bind := .bind congruence.search_bind
  sorting_pure := .pure congruence.sorting_pure
  sorting_bind := .bind congruence.sorting_bind
  among arranged _ := by
    rintro ⟨inner, inner', rfl, rfl, inners⟩
    exact ⟨_, _, adapt_map _ _ inner, adapt_map _ _ inner', congruence.among arranged inners⟩
  within _ := by
    rintro ⟨inner, inner', rfl, rfl, inners⟩
    exact ⟨_, _, adapt_map _ _ inner, adapt_map _ _ inner', congruence.within _ _ inners⟩

theorem sort {less less' : α → α → ExceptT ε m Bool}
    (asked : ∀ a b, search Bool (less a b) (less' a b)) (items : List α) :
    sorting _ (sort less items) (sort less' items) :=
  (congruence.judgement.rearranges fun a _ b _ =>
    .of_related congruence.search_bind congruence.search_pure (asked a b)).forget
      congruence.sorting_bind congruence.sorting_pure

end Congruence

end Vimlet.Sorting
