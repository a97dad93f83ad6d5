import Vimlet.Proofs.Line.NormalForm
import Vimlet.Proofs.Value.DeepCopy
import Vimlet.Statement.Pattern

/-!
# Patterns

A pattern is written as its tokens, with any blanks around them, and exactly these texts are read as
the pattern. If a value fits a pattern, each name of the pattern is bound to the part of the value
at its place.
-/

namespace Vimlet.Pattern

open List Text

/-! ### Texts of patterns -/

mutual

/-- The names in a pattern. -/
def names : Pattern → List String
  | name word => [word]
  | list items => itemNames items
  | object words => words

def itemNames : List Pattern → List String
  | [] => []
  | item :: items => item.names ++ itemNames items

end

mutual

/-- The tokens that a pattern is written with. -/
def tokens : Pattern → List (List Char)
  | name word => [word.toList]
  | list items => ['['] :: ([[',']].intercalate (itemTokens items) ++ [[']']])
  | object words =>
    ['\x7b'] :: ([[',']].intercalate (words.map fun word => [word.toList]) ++ [['\x7d']])

def itemTokens : List Pattern → List (List (List Char))
  | [] => []
  | item :: items => item.tokens :: itemTokens items

end

/-- A letter or an underscore, and then word characters, colons and number signs. -/
def IsName (word : String) : Prop :=
  ∃ first more, word.toList = first :: more ∧ startsName first = true ∧
    ∀ c ∈ more, continuesName c = true

/-- All names in a pattern are names. -/
def WellNamed (pattern : Pattern) : Prop := ∀ word ∈ pattern.names, IsName word

/-- A text starts with tokens, each one after any number of blanks, and goes on with a rest. -/
def Spells : List (List Char) → List Char → List Char → Prop
  | [], text, rest => text = rest
  | token :: tokens, text, rest => ∃ blanks after,
      (∀ c ∈ blanks, isBlank c = true) ∧ text = blanks ++ (token ++ after) ∧
        Spells tokens after rest

/-- A text is a pattern, with any blanks before, between and after its tokens. -/
def Writes (pattern : Pattern) (text : String) : Prop :=
  pattern.WellNamed ∧ ∃ rest, Spells pattern.tokens text.toList rest ∧
    ∀ c ∈ rest, isBlank c = true

variable {text rest after : List Char} {word : String} {c close : Char} {items : List Pattern}
  {namesOnly : Bool}

theorem spells_append {front back} :
    Spells (front ++ back) text rest ↔
      ∃ middle, Spells front text middle ∧ Spells back middle rest := by
  induction front generalizing text with
  | nil => simp [Spells]
  | cons token front ih =>
    simp only [cons_append, Spells, ih]
    constructor
    · rintro ⟨blanks, after, blank, rfl, middle, front_spells, back_spells⟩
      exact ⟨middle, ⟨blanks, after, blank, rfl, front_spells⟩, back_spells⟩
    · rintro ⟨middle, ⟨blanks, after, blank, rfl, front_spells⟩, back_spells⟩
      exact ⟨blanks, after, blank, rfl, middle, front_spells, back_spells⟩

/-- A token of which the first character is no blank starts where the blanks end. -/
theorem spells_cons {more tokens} (visible : isBlank c = false) :
    Spells ((c :: more) :: tokens) text rest ↔
      ∃ after, trimStart text = c :: (more ++ after) ∧ Spells tokens after rest := by
  constructor
  · rintro ⟨blanks, after, blank, rfl, spells⟩
    refine ⟨after, ?_, spells⟩
    rw [trimStart, dropLeading, dropWhile_append_of_pos blank]
    exact dropWhile_cons_of_neg (by simp [visible])
  · rintro ⟨after, trimmed, spells⟩
    refine ⟨text.takeWhile isBlank, after, fun c => mem_takeWhile_imp, ?_, spells⟩
    rw [cons_append, ← trimmed]
    exact takeWhile_append_dropWhile.symm

theorem spells_char (visible : isBlank c = false) :
    Spells [[c]] text rest ↔ trimStart text = c :: rest := by
  rw [spells_cons visible]
  simp [Spells]

theorem length_le_of_spells {tokens} (spells : Spells tokens text rest) :
    rest.length ≤ text.length := by
  induction tokens generalizing text with
  | nil => exact Nat.le_of_eq (congrArg length spells.symm)
  | cons token tokens ih =>
    obtain ⟨blanks, after, _, rfl, spells⟩ := spells
    have := ih spells
    simp only [length_append]
    omega

/-! ### Names -/

theorem continuesName_of_startsName (starts : startsName c = true) : continuesName c = true := by
  rw [startsName, Bool.or_eq_true] at starts
  obtain letter | underscore := starts
  · have low : c.toNat < 0x80 := by
      have bounds : 65 ≤ c.toNat ∧ c.toNat ≤ 90 ∨ 97 ≤ c.toNat ∧ c.toNat ≤ 122 := by
        unfold Char.isAlpha Char.isUpper Char.isLower at letter
        simpa [UInt32.le_iff_toNat_le] using letter
      omega
    rw [continuesName, isWord, isAlphanumeric, isLetter, if_pos low, letter]
    rfl
  · rw [eq_of_beq underscore]
    decide

theorem isBlank_of_continuesName (continues : continuesName c = true) : isBlank c = false := by
  rw [continuesName, isWord, Bool.or_eq_true, Bool.or_eq_true, Bool.or_eq_true] at continues
  obtain ((alphanumeric | underscore) | colon) | sign := continues
  · exact isBlank_of_isAlphanumeric alphanumeric
  · exact eq_of_beq underscore ▸ by decide
  · exact eq_of_beq colon ▸ by decide
  · exact eq_of_beq sign ▸ by decide

theorem continuesName_of_isBlank (blank : isBlank c = true) : continuesName c = false := by
  cases continues : continuesName c with
  | false => rfl
  | true =>
    rw [isBlank_of_continuesName continues] at blank
    cases blank

theorem isBlank_of_startsName (starts : startsName c = true) : isBlank c = false :=
  isBlank_of_continuesName (continuesName_of_startsName starts)

/-- A name is read from the first character after the blanks up to one that continues no name. -/
theorem splitName?_eq_some :
    splitName? (trimStart text) = some (word, rest) ↔
      IsName word ∧ Spells [word.toList] text rest ∧ ∀ c ∈ rest.head?, continuesName c = false := by
  constructor
  · intro read
    cases trimmed : trimStart text with
    | nil =>
      rw [trimmed] at read
      cases read
    | cons first more =>
      rw [trimmed, splitName?] at read
      split at read
      · rename_i starts
        cases read
        refine ⟨⟨first, _, String.toList_ofList, starts, fun c => mem_takeWhile_imp⟩, ?_,
          fun c => head_dropWhile⟩
        rw [String.toList_ofList, spells_cons (isBlank_of_startsName starts)]
        exact ⟨_, by rw [trimmed, takeWhile_append_dropWhile], rfl⟩
      · cases read
  · rintro ⟨⟨first, more, is_word, starts, continuing⟩, spells, ends⟩
    rw [is_word, spells_cons (isBlank_of_startsName starts)] at spells
    obtain ⟨after, trimmed, rfl⟩ := spells
    have nothing : after.takeWhile continuesName = [] := by
      have parts := takeWhile_append_dropWhile (p := continuesName) (l := after)
      rw [dropWhile_eq_self ends] at parts
      exact append_left_eq_self.mp parts
    rw [trimmed, splitName?, if_pos starts, takeWhile_append_of_pos continuing,
      dropWhile_append_of_pos continuing, dropWhile_eq_self ends, nothing, append_nil,
      ← is_word, String.ofList_toList]

/-! ### Patterns and sequences in a text -/

theorem itemTokens_eq_map (items : List Pattern) : itemTokens items = items.map tokens := by
  induction items with
  | nil => rfl
  | cons item items ih => rw [itemTokens, ih, map_cons]

theorem wellNamed_list : (list items).WellNamed ↔ ∀ item ∈ items, item.WellNamed := by
  have all_names (items : List Pattern) : itemNames items = items.flatMap names := by
    induction items with
    | nil => rfl
    | cons item items ih => rw [itemNames, ih, flatMap_cons]
  simp only [WellNamed, names, all_names, mem_flatMap]
  exact ⟨fun named item mem word inside => named word ⟨item, mem, inside⟩,
    fun named word inside => inside.elim fun item mem => named item mem.1 word mem.2⟩

/-- A text starts with a pattern and goes on with a rest. -/
structure Reads (pattern : Pattern) (text rest : List Char) : Prop where
  wellNamed : pattern.WellNamed
  spells : Spells pattern.tokens text rest

/-- A text starts with items, divided by commas, and a closing bracket, and goes on with a rest. -/
structure ReadsItems (close : Char) (namesOnly : Bool) (items : List Pattern)
    (text rest : List Char) : Prop where
  wellNamed : ∀ item ∈ items, item.WellNamed
  names : namesOnly = true → ∀ item ∈ items, ∃ word, item = name word
  spells : Spells ([[',']].intercalate (items.map tokens) ++ [[close]]) text rest

theorem readsItems_nil (visible : isBlank close = false) :
    ReadsItems close namesOnly [] text rest ↔ trimStart text = close :: rest := by
  rw [← spells_char visible]
  exact ⟨fun reads => by simpa using reads.spells,
    fun spells => ⟨by simp, by simp, by simpa using spells⟩⟩

theorem readsItems_cons (visible : isBlank close = false) {item} :
    ReadsItems close namesOnly (item :: items) text rest ↔
      ∃ middle, item.Reads text middle ∧ (namesOnly = true → ∃ word, item = name word) ∧
        (items = [] ∧ trimStart middle = close :: rest ∨ items ≠ [] ∧ ∃ after,
          trimStart middle = ',' :: after ∧ ReadsItems close namesOnly items after rest) := by
  have spells_iff : Spells ([[',']].intercalate ((item :: items).map tokens) ++ [[close]]) text
      rest ↔ ∃ middle, Spells item.tokens text middle ∧
        (items = [] ∧ trimStart middle = close :: rest ∨ items ≠ [] ∧ ∃ after,
          trimStart middle = ',' :: after ∧
          Spells ([[',']].intercalate (items.map tokens) ++ [[close]]) after rest) := by
    cases items with
    | nil => simp [spells_append, spells_char visible]
    | cons next items =>
      simp [intercalate_cons_cons, spells_append, spells_cons (by decide : isBlank ',' = false)]
  constructor
  · rintro ⟨wellNamed, names, spells⟩
    obtain ⟨middle, item_spells, goes_on⟩ := spells_iff.mp spells
    refine ⟨middle, ⟨wellNamed item mem_cons_self, item_spells⟩,
      fun only => names only item mem_cons_self, goes_on.imp_right ?_⟩
    rintro ⟨some_items, after, comma, items_spell⟩
    exact ⟨some_items, after, comma, fun other mem => wellNamed other (mem_cons_of_mem _ mem),
      fun only other mem => names only other (mem_cons_of_mem _ mem), items_spell⟩
  · rintro ⟨middle, ⟨item_named, item_spells⟩, item_name, goes_on⟩
    have rest_read : items = [] ∨ ∃ after, ReadsItems close namesOnly items after rest :=
      goes_on.imp (fun ended => ended.1) fun ⟨_, after, _, reads⟩ => ⟨after, reads⟩
    refine ⟨?_, fun only => ?_, spells_iff.mpr ⟨middle, item_spells, goes_on.imp_right ?_⟩⟩
    · obtain rfl | ⟨_, reads⟩ := rest_read
      · exact forall_mem_singleton.mpr item_named
      · exact forall_mem_cons.mpr ⟨item_named, reads.wellNamed⟩
    · obtain rfl | ⟨_, reads⟩ := rest_read
      · exact forall_mem_singleton.mpr (item_name only)
      · exact forall_mem_cons.mpr ⟨item_name only, reads.names only⟩
    · rintro ⟨some_items, after, comma, reads⟩
      exact ⟨some_items, after, comma, reads.spells⟩

theorem reads_name : (name word).Reads text rest ↔ IsName word ∧ Spells [word.toList] text rest :=
  ⟨fun reads => ⟨reads.wellNamed word mem_cons_self, reads.spells⟩, fun written =>
    ⟨fun _ mem => mem_singleton.mp mem ▸ written.1, written.2⟩⟩

theorem reads_list :
    (list items).Reads text rest ↔
      ∃ after, trimStart text = '[' :: after ∧ ReadsItems ']' false items after rest := by
  have spells_iff : Spells (list items).tokens text rest ↔ _ :=
    spells_cons (by decide : isBlank '[' = false)
  rw [itemTokens_eq_map] at spells_iff
  constructor
  · rintro ⟨wellNamed, spells⟩
    obtain ⟨after, opened, items_spell⟩ := spells_iff.mp spells
    exact ⟨after, opened, wellNamed_list.mp wellNamed, by simp, items_spell⟩
  · rintro ⟨after, opened, reads⟩
    exact ⟨wellNamed_list.mpr reads.wellNamed, spells_iff.mpr ⟨after, opened, reads.spells⟩⟩

theorem reads_object {words} :
    (object words).Reads text rest ↔ ∃ after, trimStart text = '\x7b' :: after ∧
      ReadsItems '\x7d' true (words.map name) after rest := by
  have spells_iff : Spells (object words).tokens text rest ↔ _ :=
    spells_cons (by decide : isBlank '\x7b' = false)
  have tokens_eq : (words.map fun word => [word.toList]) = (words.map name).map tokens := by
    rw [map_map]
    rfl
  rw [tokens_eq] at spells_iff
  have named_iff : (object words).WellNamed ↔ ∀ item ∈ words.map name, item.WellNamed := by
    simp [WellNamed, names]
  constructor
  · rintro ⟨wellNamed, spells⟩
    obtain ⟨after, opened, items_spell⟩ := spells_iff.mp spells
    exact ⟨after, opened, named_iff.mp wellNamed, by simp, items_spell⟩
  · rintro ⟨after, opened, reads⟩
    exact ⟨named_iff.mpr reads.wellNamed, spells_iff.mpr ⟨after, opened, reads.spells⟩⟩

/-- A closing bracket starts nothing, and is neither a blank, nor part of a name, nor a comma. -/
structure Closes (close : Char) : Prop where
  visible : isBlank close = false
  no_name : continuesName close = false
  no_comma : close ≠ ','
  no_bracket : close ≠ '['
  no_brace : close ≠ '\x7b'

theorem closes_bracket : Closes ']' := by constructor <;> decide

theorem closes_brace : Closes '\x7d' := by constructor <;> decide

variable {pattern : Pattern}

theorem ne_close_of_reads (closes : Closes close) (reads : pattern.Reads text rest) :
    (trimStart text).head? ≠ some close := by
  cases pattern with
  | name word =>
    obtain ⟨⟨first, more, is_word, starts, _⟩, spells⟩ := reads_name.mp reads
    rw [is_word, spells_cons (isBlank_of_startsName starts)] at spells
    obtain ⟨after, trimmed, _⟩ := spells
    rw [trimmed]
    rintro ⟨⟩
    have no_name := closes.no_name
    rw [continuesName_of_startsName starts] at no_name
    cases no_name
  | list items =>
    obtain ⟨after, opened, _⟩ := reads_list.mp reads
    rw [opened]
    exact fun same => closes.no_bracket (Option.some.inj same).symm
  | object words =>
    obtain ⟨after, opened, _⟩ := reads_object.mp reads
    rw [opened]
    exact fun same => closes.no_brace (Option.some.inj same).symm

/-! ### One step of reading -/

/-- What follows does not continue the pattern. -/
def Ends : Pattern → List Char → Prop
  | name _, rest => ∀ c ∈ rest.head?, continuesName c = false
  | list _, _ | object _, _ => True

theorem ends_of_trimStart (pattern : Pattern) (trimmed : trimStart text = c :: after)
    (no_name : continuesName c = false) : pattern.Ends text := by
  cases pattern with
  | name word =>
    intro d head
    obtain ⟨more, rfl⟩ := head?_eq_some_iff.mp head
    cases blank : isBlank d with
    | true => exact continuesName_of_isBlank blank
    | false =>
      rw [trimStart, dropLeading, dropWhile_cons_of_neg (by simp [blank])]
        at trimmed
      cases trimmed
      exact no_name
  | _ => trivial

theorem length_lt_of_trimStart (trimmed : trimStart text = c :: after) :
    after.length < text.length := by
  have shorter : (trimStart text).length ≤ text.length :=
    (dropWhile_suffix isBlank).length_le
  rw [trimmed] at shorter
  exact shorter

theorem readMore_trimStart (fuel : Nat) (text : List Char) :
    readMore fuel close namesOnly (trimStart text) = readMore fuel close namesOnly text := by
  rcases fuel with _ | _ | fuel
  · rfl
  · rfl
  · have trimmed : trimStart (trimStart text) = trimStart text :=
      dropWhile_eq_self fun _ => head_dropWhile
    rw [readMore, readMore, readWithin, readWithin, trimmed]

theorem readItems_succ (fuel : Nat) :
    readItems (fuel + 1) close namesOnly text = .ok (items, rest) ↔
      items = [] ∧ trimStart text = close :: rest ∨
        (trimStart text).head? ≠ some close ∧
          readMore fuel close namesOnly text = .ok (items, rest) := by
  rw [readItems, ← readMore_trimStart fuel text]
  cases trimmed : trimStart text with
  | nil => simp
  | cons c after =>
    by_cases closed : c = close
    · simp [closed, eq_comm]
    · simp [closed]

theorem closeOrContinue_eq_ok {more : List Char → Except Fault (List Pattern × List Char)} {item}
    (no_comma : close ≠ ',') :
    closeOrContinue close text more item = .ok (items, rest) ↔
      ∃ others, items = item :: others ∧ (others = [] ∧ trimStart text = close :: rest ∨
        ∃ after, trimStart text = ',' :: after ∧ more after = .ok (others, rest)) := by
  unfold closeOrContinue
  cases trimmed : trimStart text with
  | nil => simp
  | cons c after =>
    obtain rfl | no_separator := eq_or_ne c ','
    · cases read : more after with
      | error cause => simp [bind, Except.bind, no_comma.symm, read]
      | ok result =>
        simp only [bind, Except.bind, pure, Except.pure, beq_self_eq_true, if_true, read,
          Except.ok.injEq]
        grind
    · obtain rfl | other := eq_or_ne c close
      · simp only [beq_eq_false_iff_ne.mpr no_separator, beq_self_eq_true]
        grind
      · simp [no_separator, other]

theorem readMore_succ (fuel : Nat) :
    readMore (fuel + 1) close namesOnly text = .ok (items, rest) ↔
      ∃ item middle, readWithin fuel text = .ok (item, middle) ∧
        (namesOnly = true → ∃ word, item = name word) ∧
        closeOrContinue close middle (readMore fuel close namesOnly) item = .ok (items, rest) := by
  rw [readMore]
  cases first : readWithin fuel text with
  | error cause => simp [bind, Except.bind]
  | ok result =>
    obtain ⟨item, middle⟩ := result
    cases namesOnly with
    | false => simp [bind, Except.bind]
    | true =>
      cases item <;>
        simp [bind, Except.bind, asName, discard, Functor.discard, Functor.mapConst, Except.map]

theorem readWithin_succ (fuel : Nat) :
    readWithin (fuel + 1) text = .ok (pattern, rest) ↔
      match pattern with
      | name word => splitName? (trimStart text) = some (word, rest)
      | list items => ∃ after, trimStart text = '[' :: after ∧
          readItems fuel ']' false after = .ok (items, rest)
      | object words => ∃ after items, trimStart text = '\x7b' :: after ∧
          readItems fuel '\x7d' true after = .ok (items, rest) ∧
          words = items.filterMap fun item => item.asName.toOption := by
  rw [readWithin]
  split
  · rename_i after opened
    rw [opened]
    rcases inner : readItems fuel ']' false after with _ | ⟨found, left⟩ <;> cases pattern <;>
      simp [bind, Except.bind, inner, splitName?, startsName, pure, Except.pure]
  · rename_i after opened
    rw [opened]
    rcases inner : readItems fuel '\x7d' true after with _ | ⟨found, left⟩ <;> cases pattern <;>
      simp [bind, Except.bind, inner, splitName?, startsName, pure, Except.pure, eq_comm, and_comm]
  · rename_i no_bracket no_brace
    have no_bracket (after : List Char) : trimStart text ≠ '[' :: after := no_bracket after
    have no_brace (after : List Char) : trimStart text ≠ '\x7b' :: after := no_brace after
    rcases splitName? (trimStart text) with _ | ⟨found, left⟩ <;> cases pattern <;>
      simp [no_bracket, no_brace]

theorem filterMap_asName (words : List String) :
    ((words.map name).filterMap fun item => item.asName.toOption) = words := by
  induction words with
  | nil => rfl
  | cons word words ih => exact congrArg (word :: ·) ih

theorem exists_map_name (named : ∀ item ∈ items, ∃ word, item = name word) :
    ∃ words : List String, items = words.map name := by
  induction items with
  | nil => exact ⟨[], rfl⟩
  | cons item items ih =>
    obtain ⟨words, rfl⟩ := ih fun other mem => named other (mem_cons_of_mem _ mem)
    obtain ⟨word, rfl⟩ := named item mem_cons_self
    exact ⟨word :: words, rfl⟩

/-! ### What is read is what is written -/

/-- With enough steps a pattern and the items of a sequence are read exactly where they are written.
-/
theorem readWithin_eq_ok (fuel : Nat) :
    (∀ {text rest : List Char} {pattern : Pattern}, 3 * text.length + 1 ≤ fuel →
      (readWithin fuel text = .ok (pattern, rest) ↔ pattern.Reads text rest ∧ pattern.Ends rest)) ∧
    ∀ {close : Char} {namesOnly : Bool} {text rest : List Char} {items : List Pattern},
      Closes close →
      (3 * text.length + 3 ≤ fuel → (readItems fuel close namesOnly text = .ok (items, rest) ↔
        ReadsItems close namesOnly items text rest)) ∧
      (3 * text.length + 2 ≤ fuel → (readMore fuel close namesOnly text = .ok (items, rest) ↔
        items ≠ [] ∧ ReadsItems close namesOnly items text rest)) := by
  induction fuel with
  | zero => exact ⟨by omega, fun _ => ⟨by omega, by omega⟩⟩
  | succ fuel ih =>
    obtain ⟨pattern_read, items_read⟩ := ih
    refine ⟨fun {text rest pattern} enough => ?_, fun {close namesOnly text rest items} closes =>
      ⟨fun enough => ?_, fun enough => ?_⟩⟩
    · rw [readWithin_succ]
      cases pattern with
      | name word =>
        dsimp only [Ends]
        rw [splitName?_eq_some, reads_name, and_assoc]
      | list items =>
        rw [Ends, and_true, reads_list]
        refine exists_congr fun after => and_congr_right fun opened => ?_
        have := length_lt_of_trimStart opened
        exact (items_read closes_bracket).1 (by omega)
      | object words =>
        rw [Ends, and_true, reads_object]
        refine exists_congr fun after => ⟨?_, ?_⟩
        · rintro ⟨items, opened, read, rfl⟩
          have := length_lt_of_trimStart opened
          have reads := ((items_read closes_brace).1 (by omega)).mp read
          obtain ⟨words, rfl⟩ := exists_map_name (reads.names rfl)
          rw [filterMap_asName]
          exact ⟨opened, reads⟩
        · rintro ⟨opened, reads⟩
          have := length_lt_of_trimStart opened
          exact ⟨_, opened, ((items_read closes_brace).1 (by omega)).mpr reads,
            (filterMap_asName words).symm⟩
    · rw [readItems_succ, (items_read closes).2 (by omega)]
      cases items with
      | nil => simp [readsItems_nil closes.visible]
      | cons item items =>
        have first (reads : ReadsItems close namesOnly (item :: items) text rest) :
            (trimStart text).head? ≠ some close := by
          obtain ⟨middle, item_reads, _⟩ := (readsItems_cons closes.visible).mp reads
          exact ne_close_of_reads closes item_reads
        simpa using first
    · simp only [readMore_succ, closeOrContinue_eq_ok closes.no_comma]
      constructor
      · rintro ⟨item, middle, read, named, others, rfl, goes_on⟩
        obtain ⟨item_reads, _⟩ := (pattern_read (by omega)).mp read
        have := length_le_of_spells item_reads.spells
        refine ⟨cons_ne_nil _ _, (readsItems_cons closes.visible).mpr
          ⟨middle, item_reads, named, goes_on.imp_right ?_⟩⟩
        rintro ⟨after, comma, more⟩
        have := length_lt_of_trimStart comma
        obtain ⟨some_others, reads⟩ := ((items_read closes).2 (by omega)).mp more
        exact ⟨some_others, after, comma, reads⟩
      · rintro ⟨nonempty, reads⟩
        obtain ⟨item, others, rfl⟩ := exists_cons_of_ne_nil nonempty
        obtain ⟨middle, item_reads, named, goes_on⟩ := (readsItems_cons closes.visible).mp reads
        have := length_le_of_spells item_reads.spells
        have ends : item.Ends middle := by
          obtain ⟨_, closed⟩ | ⟨_, after, comma, _⟩ := goes_on
          · exact ends_of_trimStart item closed closes.no_name
          · exact ends_of_trimStart item comma (by decide)
        have read := (pattern_read (by omega)).mpr ⟨item_reads, ends⟩
        refine ⟨item, middle, read, named, others, rfl, goes_on.imp_right ?_⟩
        rintro ⟨some_others, after, comma, others_read⟩
        have := length_lt_of_trimStart comma
        exact ⟨after, comma, ((items_read closes).2 (by omega)).mpr ⟨some_others, others_read⟩⟩

theorem trim_eq_nil : trim text = [] ↔ ∀ c ∈ text, isBlank c = true := by
  rw [trim, trimEnd, dropTrailing, reverse_eq_nil_iff, dropWhile_eq_nil_iff]
  simp only [mem_reverse]
  refine ⟨fun blank c mem => ?_, fun blank c mem => blank c ?_⟩
  · rw [← takeWhile_append_dropWhile (p := isBlank) (l := text)] at mem
    exact (mem_append.mp mem).elim mem_takeWhile_imp (blank c)
  · exact (dropWhile_suffix isBlank).subset mem

theorem parse_eq_ok {text} : parse text = .ok pattern ↔ pattern.Writes text := by
  have read_iff (pattern : Pattern) (rest : List Char) :
      readWithin (3 * text.length + 3) text.toList = .ok (pattern, rest) ↔
        pattern.Reads text.toList rest ∧ pattern.Ends rest :=
    (readWithin_eq_ok _).1 (by rw [String.length_toList]; omega)
  rw [parse]
  constructor
  · intro parsed
    cases read : readWithin (3 * text.length + 3) text.toList with
    | error cause => simp [bind, Except.bind, read] at parsed
    | ok result =>
      simp only [bind, Except.bind, read] at parsed
      split at parsed
      · rename_i nothing
        cases parsed
        have reads := ((read_iff _ _).mp read).1
        exact ⟨reads.wellNamed, result.2, reads.spells,
          trim_eq_nil.mp (isEmpty_iff.mp nothing)⟩
      · cases parsed
  · rintro ⟨wellNamed, rest, spells, blank⟩
    have ends : pattern.Ends rest := by
      cases pattern with
      | name word =>
        exact fun c head => continuesName_of_isBlank (blank c (mem_of_mem_head? head))
      | _ => trivial
    simp only [(read_iff pattern rest).mpr ⟨⟨wellNamed, spells⟩, ends⟩, bind, Except.bind,
      trim_eq_nil.mpr blank]
    rfl

/-! ### Bindings -/

/-- What holds of names and of Object patterns, and of a List pattern if it holds of its items,
holds of every pattern. -/
theorem induction {motive : Pattern → Prop} (of_name : ∀ word, motive (name word))
    (of_list : ∀ items, (∀ item ∈ items, motive item) → motive (list items))
    (of_object : ∀ words, motive (object words)) (pattern : Pattern) : motive pattern :=
  @Pattern.rec motive (fun items => ∀ item ∈ items, motive item) of_name of_list of_object (by simp)
    (fun _ _ first rest => forall_mem_cons.mpr ⟨first, rest⟩) pattern

mutual

/-- A pattern and all patterns in it from left to right, each with the positions of the items that
lead to it. -/
def parts : Pattern → List (List Nat × Pattern)
  | name word => [([], name word)]
  | list items => ([], list items) :: itemParts 0 items
  | object words => [([], object words)]

def itemParts (position : Nat) : List Pattern → List (List Nat × Pattern)
  | [] => []
  | item :: items =>
    item.parts.map (fun part => (position :: part.1, part.2)) ++ itemParts (position + 1) items

end

/-- The patterns in a pattern from left to right, each with the part of a value at its place. -/
def places (heap : Heap) (pattern : Pattern) (value : Value) : List (Pattern × Option Value) :=
  pattern.parts.map fun part => (part.2, heap.follow part.1 value)

/-- There is a List of the same length for a List pattern, and an Object for an Object pattern. -/
def Fits (heap : Heap) : Pattern × Option Value → Prop
  | (name _, part) => part ≠ none
  | (list items, part) => ∃ cell, part = some (.list cell) ∧ (heap.list cell).length = items.length
  | (object _, part) => ∃ cell, part = some (.object cell)

/-- A name is bound to the value at its place, and one of an Object pattern to the entry under the
part after its last colon, or to Nil. -/
def binds (heap : Heap) : Pattern × Option Value → List (String × Value)
  | (name word, some value) => [(word, value)]
  | (object words, some (.object cell)) =>
    words.map fun word => (word, ((heap.object cell).get? (bareName word)).getD .nil)
  | _ => []

variable {heap : Heap} {cell position : Nat} {values : List Value}

theorem map_itemParts (from_position : (heap.list cell).drop position = values)
    (same : items.length = values.length) :
    ((itemParts position items).map fun part => (part.2, heap.follow part.1 (.list cell))) =
      (zipWith (places heap) items values).flatten := by
  induction items generalizing position values with
  | nil => rfl
  | cons item items ih =>
    obtain ⟨value, values, rfl⟩ := exists_cons_of_length_eq_add_one same.symm
    have first : (heap.list cell)[position]? = some value := by
      rw [← Nat.add_zero position, ← getElem?_drop, from_position]
      rfl
    have later : (heap.list cell).drop (position + 1) = values := by
      rw [← tail_drop, from_position, tail_cons]
    have follows (path : List Nat) :
        heap.follow (position :: path) (.list cell) = heap.follow path value := by
      rw [Heap.follow_cons]
      simp [Value.handle?, Heap.contents, first]
    simp only [itemParts, map_append, map_map, zipWith_cons_cons,
      flatten_cons, ih later (Nat.succ.inj same), places, Function.comp_def, follows]

theorem places_list (same : items.length = (heap.list cell).length) :
    places heap (list items) (.list cell) = (list items, some (.list cell)) ::
      (zipWith (places heap) items (heap.list cell)).flatten := by
  rw [places, parts, map_cons, map_itemParts (drop_zero ..) same]
  rfl

/-- Bindings end well exactly if each part of the value fits. They bind the names of the pattern
from left to right. -/
structure Binds (heap : Heap) (places : List (Pattern × Option Value)) (words : List String)
    (made : List (String × Value) × Option Fault) : Prop where
  ends : made.2 = none ↔ ∀ place ∈ places, Fits heap place
  bound : made.2 = none → made.1 = places.flatMap (binds heap)
  names : made.1.map Prod.fst <+: words
  all_names : made.2 = none → made.1.map Prod.fst = words

theorem bindItems_binds
    (bind : ∀ item ∈ items, ∀ value,
      Binds heap (places heap item value) item.names (bindings heap item value))
    (same : items.length = values.length) :
    Binds heap (zipWith (places heap) items values).flatten (itemNames items)
      (bindItems heap items values) := by
  induction items generalizing values with
  | nil => constructor <;> simp [bindItems, itemNames]
  | cons item items ih =>
    obtain ⟨value, values, rfl⟩ := exists_cons_of_length_eq_add_one same.symm
    obtain ⟨item_ends, item_bound, item_names, item_all⟩ := bind item mem_cons_self value
    obtain ⟨items_end, items_bound, items_names, items_all⟩ :=
      ih (fun other mem => bind other (mem_cons_of_mem _ mem)) (Nat.succ.inj same)
    rw [zipWith_cons_cons, flatten_cons, bindItems, itemNames]
    rcases first : bindings heap item value with ⟨bound, _ | cause⟩
    · simp only [first, true_iff, forall_const] at item_ends item_bound item_all
      constructor
      · rw [forall_mem_append, and_iff_right item_ends, items_end]
      · intro ended
        rw [flatMap_append, ← item_bound, ← items_bound ended]
      · rw [map_append, item_all]
        exact (prefix_append_right_inj _).mpr items_names
      · intro ended
        rw [map_append, item_all, items_all ended]
    · simp only [first] at item_ends item_names
      constructor
      · rw [forall_mem_append, ← item_ends]
        simp
      · simp
      · exact item_names.trans (prefix_append _ _)
      · simp

theorem bindings_binds (heap : Heap) (pattern : Pattern) (value : Value) :
    Binds heap (places heap pattern value) pattern.names (bindings heap pattern value) := by
  induction pattern using Pattern.induction generalizing value with
  | of_name word => constructor <;> simp [bindings, places, parts, Heap.follow, Fits, binds, names]
  | of_list items ih =>
    by_cases fits : Fits heap (list items, some value)
    · obtain ⟨cell, ⟨⟩, same⟩ := fits
      obtain ⟨ends, bound, names_bound, all_names⟩ := bindItems_binds ih same.symm
      rw [bindings, if_pos (beq_iff_eq.mpr same), places_list same.symm]
      refine ⟨?_, bound, names_bound, all_names⟩
      rw [ends, forall_mem_cons]
      exact (and_iff_right ⟨cell, rfl, same⟩).symm
    · obtain ⟨cause, stops⟩ : ∃ cause, bindings heap (list items) value = ([], some cause) := by
        cases value <;> simp_all [bindings, Fits]
      have here : (list items, some value) ∈ places heap (list items) value := mem_cons_self
      rw [stops]
      exact ⟨iff_of_false (by simp) fun all => fits (all _ here), by simp, nil_prefix,
        by simp⟩
  | of_object words =>
    cases value
    all_goals constructor <;>
      simp [bindings, places, parts, Heap.follow, Fits, binds, names, Function.comp_def]

/-- Exactly the texts of a pattern are read as the pattern. It binds exactly the values whose parts
fit, each name, from left to right, to what is at its place; names of an Object pattern are looked
up without what is before their last colon. -/
theorem reads_and_binds_exactly :
    (∀ (text : String) (pattern : Pattern), parse text = .ok pattern ↔ pattern.Writes text) ∧
    (∀ (heap : Heap) (pattern : Pattern) (value : Value) (bound : List (String × Value)),
      bindings heap pattern value = (bound, none) ↔
        (∀ place ∈ places heap pattern value, Fits heap place) ∧
          bound = (places heap pattern value).flatMap (binds heap) ∧
          bound.map Prod.fst = pattern.names) ∧
    ∀ front back : List Char, ':' ∉ back →
      bareName (String.ofList back) = String.ofList back ∧
        bareName (String.ofList (front ++ ':' :: back)) = String.ofList back := by
  refine ⟨fun text pattern => parse_eq_ok, fun heap pattern value bound => ?_,
    fun front back no_colon => ?_⟩
  · have made := bindings_binds heap pattern value
    constructor
    · intro made_eq
      rw [made_eq] at made
      exact ⟨made.ends.mp rfl, made.bound rfl, made.all_names rfl⟩
    · rintro ⟨fits, rfl, _⟩
      have ended := made.ends.mpr fits
      exact Prod.ext (made.bound ended) ended
  · have plain : ∀ c ∈ back.reverse, (c != ':') = true := by
      intro c mem
      simpa using fun same : c = ':' => no_colon (same ▸ mem_reverse.mp mem)
    constructor
    · simp [bareName, takeWhile_eq_self_iff.mpr plain]
    · simp [bareName, takeWhile_append_of_pos plain]

end Vimlet.Pattern
