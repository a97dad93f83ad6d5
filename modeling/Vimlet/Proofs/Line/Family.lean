import Vimlet.Proofs.Line.Division

/-!
# Scans and replays are interchangeable

What a source gives depends only on the statements that it has left. So a scan of a script and a
replay of its statements cannot be told apart, also if they are copied on the way.
-/

namespace Vimlet

open List

namespace Source

variable {family other : List Source}

/-- The statements that a source has left. -/
def remaining : Source → List Line
  | scan place => place.lines
  | replay lines => lines

theorem next?_of_remaining (source : Source) :
    (source.remaining = [] ∧ source.next? = none) ∨
      ∃ line rest, source.remaining = line :: rest.remaining ∧
        source.next? = some (line, rest) := by
  cases source with
  | replay lines =>
    cases lines with
    | nil => exact .inl ⟨rfl, rfl⟩
    | cons line lines => exact .inr ⟨line, .replay lines, rfl, rfl⟩
  | scan place =>
    have lines_eq := place.lines_eq_next?
    rw [next?]
    cases found : place.next? with
    | none =>
      rw [found] at lines_eq
      exact .inl ⟨lines_eq, rfl⟩
    | some next =>
      rw [found] at lines_eq
      exact .inr ⟨next.1, .scan next.2, lines_eq, rfl⟩

/-! ### Families -/

/-- What can be done with a source of a family. -/
inductive Operation where
  /-- Asks for its next statement. -/
  | next (source : Nat)
  /-- Adds a copy of it to the family. -/
  | clone (source : Nat)
deriving DecidableEq, Repr

/-- The source that an operation is about. -/
def Operation.source : Operation → Nat
  | next source | clone source => source

/-- What an operation answers. -/
inductive Answer where
  /-- The next statement, or the end of the source. -/
  | line (line : Option Line)
  /-- The number of the new source. -/
  | added (source : Nat)
  /-- There is no such source. -/
  | missing
deriving DecidableEq, Repr

def perform (family : List Source) (operation : Operation) : Answer × List Source :=
  match operation, family[operation.source]? with
  | _, none => (.missing, family)
  | .clone _, some source => (.added family.length, family ++ [source])
  | .next place, some source =>
    match source.next? with
    | none => (.line none, family)
    | some (line, rest) => (.line (some line), family.set place rest)

/-- The answers of operations one after the other, and the family after them. -/
def performAll (family : List Source) : List Operation → List Answer × List Source
  | [] => ([], family)
  | operation :: operations =>
    let (answer, family) := perform family operation
    let (answers, family) := performAll family operations
    (answer :: answers, family)

/-- The sources of two families have the same statements left. -/
def Alike (family other : List Source) : Prop := family.map remaining = other.map remaining

theorem Alike.perform (alike : Alike family other) (operation : Operation) :
    (perform family operation).1 = (perform other operation).1 ∧
      Alike (perform family operation).2 (perform other operation).2 := by
  have found := congrArg (·[operation.source]?) alike
  simp only [getElem?_map] at found
  unfold Source.perform
  cases left_eq : family[operation.source]? with
  | none =>
    cases right_eq : other[operation.source]? with
    | none => exact ⟨rfl, alike⟩
    | some source' => simp [left_eq, right_eq] at found
  | some source =>
    cases right_eq : other[operation.source]? with
    | none => simp [left_eq, right_eq] at found
    | some source' =>
      have same : source.remaining = source'.remaining := by
        simpa [left_eq, right_eq] using found
      cases operation with
      | clone place =>
        refine ⟨congrArg Answer.added (by simpa using congrArg length alike), ?_⟩
        simp only [Alike, map_append, map_cons, map_nil, same]
        rw [alike]
      | next place =>
        obtain ⟨none_left, ended⟩ | ⟨line, rest, left_over, advanced⟩ :=
          source.next?_of_remaining
        · obtain ⟨_, ended'⟩ | ⟨line', rest', left_over', _⟩ := source'.next?_of_remaining
          · simp only [ended, ended']
            exact ⟨trivial, alike⟩
          · rw [← same, none_left] at left_over'
            cases left_over'
        · obtain ⟨none_left', _⟩ | ⟨line', rest', left_over', advanced'⟩ :=
            source'.next?_of_remaining
          · rw [← same, left_over] at none_left'
            cases none_left'
          · rw [← same, left_over] at left_over'
            obtain ⟨rfl, rest_eq⟩ := List.cons.inj left_over'
            simp only [advanced, advanced']
            refine ⟨trivial, ?_⟩
            rw [Alike, map_set, map_set, alike, rest_eq]

theorem Alike.performAll (alike : Alike family other) (operations : List Operation) :
    (performAll family operations).1 = (performAll other operations).1 := by
  induction operations generalizing family other with
  | nil => rfl
  | cons operation operations ih =>
    obtain ⟨answer_eq, alike_after⟩ := alike.perform operation
    simp only [Source.performAll]
    rw [answer_eq, ih alike_after]

/-- Two families differ in one source at most. -/
structure AgreeBut (place : Nat) (family other : List Source) : Prop where
  length_eq : family.length = other.length
  same {number} : number ≠ place → family[number]? = other[number]?

theorem AgreeBut.perform {place} (agree : AgreeBut place family other) {operation}
    (elsewhere : operation.source ≠ place) :
    (perform family operation).1 = (perform other operation).1 ∧
      AgreeBut place (perform family operation).2 (perform other operation).2 := by
  unfold Source.perform
  rw [agree.same elsewhere]
  cases found : other[operation.source]? with
  | none => exact ⟨rfl, agree⟩
  | some source =>
    cases operation with
    | clone number =>
      refine ⟨congrArg Answer.added agree.length_eq, by simp [agree.length_eq], fun ne => ?_⟩
      simp only [getElem?_append, agree.length_eq, agree.same ne]
    | next number =>
      dsimp only
      split
      · exact ⟨rfl, agree⟩
      · refine ⟨rfl, by simp [agree.length_eq], fun ne => ?_⟩
        simp only [getElem?_set, agree.length_eq, agree.same ne]

theorem AgreeBut.performAll {place} (agree : AgreeBut place family other) {operations}
    (elsewhere : ∀ operation ∈ operations, operation.source ≠ place) :
    (performAll family operations).1 = (performAll other operations).1 := by
  induction operations generalizing family other with
  | nil => rfl
  | cons operation operations ih =>
    obtain ⟨answer_eq, agree_after⟩ := agree.perform (elsewhere operation mem_cons_self)
    simp only [Source.performAll]
    rw [answer_eq, ih agree_after fun later mem => elsewhere later (mem_cons_of_mem _ mem)]

theorem agreeBut_next (family : List Source) (place : Nat) :
    AgreeBut place (perform family (.next place)).2 family := by
  have refl : AgreeBut place family family := ⟨rfl, fun _ => rfl⟩
  unfold Source.perform
  split
  · exact refl
  · contradiction
  · rename_i same _
    cases same
    split
    · exact refl
    · exact ⟨length_set, fun ne => getElem?_set_ne ne.symm⟩

/-- A scan of a script and a replay of its statements answer all operations on them and their copies
alike, and asking one source for its next statement changes no other. -/
theorem scan_replay_interchangeable (text : String) :
    (Source.scan (.ofText text)).Gives (scriptLines text) ∧
      (∀ operations, (performAll [.scan (.ofText text)] operations).1 =
        (performAll [.replay (scriptLines text)] operations).1) ∧
      ∀ (family : List Source) (place : Nat) (operations : List Operation),
        (∀ operation ∈ operations, operation.source ≠ place) →
        (performAll (perform family (.next place)).2 operations).1 =
          (performAll family operations).1 := by
  have alike : Alike [.scan (.ofText text)] [.replay (scriptLines text)] := rfl
  refine ⟨gives_lines _, alike.performAll, ?_⟩
  intro family place operations elsewhere
  exact (agreeBut_next family place).performAll elsewhere

/-- A copy is made before the first source is asked once more, and both come to the end. -/
theorem scan_replay_interchangeable_copy :
    let script := "echo 1 | echo 2\n\" note | no statement\nfinish"
    let family := [Source.scan (.ofText script)]
    let operations : List Operation := [.next 0, .clone 0, .next 0, .next 0, .next 0]
    let finish : Line := ⟨.current, "finish", false, "", 3⟩
    (performAll family operations).1 = (performAll [.replay (scriptLines script)] operations).1 ∧
      (performAll family operations).1.drop 3 = [.line (some finish), .line none] ∧
      (performAll (performAll family operations).2 [.next 1, .next 1]).1 =
        [.line (some ⟨.current, "echo", false, "2", 1⟩), .line (some finish)] ∧
      (performAll (perform (performAll family operations).2 (.next 0)).2 [.next 1, .next 1]).1 =
        (performAll (performAll family operations).2 [.next 1, .next 1]).1 := by
  intro script family operations finish
  obtain ⟨_, alike, apart⟩ := scan_replay_interchangeable script
  refine ⟨alike operations, by decide +kernel, by decide +kernel, ?_⟩
  exact apart _ 0 [.next 1, .next 1] (by decide)

end Source

end Vimlet
