import Vimlet.Proofs.Expr.Precedence
import Vimlet.Proofs.Session.Shelter
import Vimlet.Proofs.Value.Copies

/-!
# Values are read back from their texts

The text of a value is read as the tokens of a syntax tree, and the tree evaluates to new containers
with the contents of the old ones.
-/

namespace Vimlet

open Lexer Reduce Run Session
open List hiding lookup

variable {σ : Type}
variable {session : Session σ} {words : List Token} {value : Value} {text : List Char} {cell : Nat}

/-! ### Names -/

/-- What a token stands for once names are replaced by their values. -/
inductive Stands (session : Session σ) : Token → Token → Prop where
  | val (value : Value) : Stands session (.val value) (.val value)
  | op {symbol} (no_paren : symbol ≠ .leftParen) (no_ampersand : symbol ≠ .ampersand) :
      Stands session (.op symbol) (.op symbol)
  | var {name value} (found : session.vars.find? name = .ok (some value)) :
      Stands session (.var name) (.val value)

theorem markCalls_of_notMem (no_paren : .op .leftParen ∉ words) : markCalls words = words := by
  fun_induction markCalls words with
  | case1 name rest => simp at no_paren
  | case2 token rest _ ih => rw [ih fun mem => no_paren (mem_cons_of_mem _ mem)]
  | case3 => rfl

section Substitution

variable {tokens : List Token} (stand : Forall₂ (Stands session) words tokens)
include stand

theorem markCalls_of_stand : markCalls words = words := by
  refine markCalls_of_notMem fun mem => ?_
  induction stand with
  | nil => cases mem
  | cons first _ ih =>
    obtain rfl | mem := mem_cons.mp mem
    · cases first with
      | op no_paren _ => exact no_paren rfl
    · exact ih mem

theorem substitute_of_stand (host : Host σ) :
    substitute host words session = .ok tokens session := by
  induction stand with
  | nil => rfl
  | cons first _ ih =>
    cases first with
    | val value =>
      rw [substitute, bind_ok ih]
      · rfl
      · intro name rest same
        cases same
      · intro name same
        cases same
    | op _ no_ampersand =>
      rw [substitute, bind_ok ih]
      · rfl
      · rintro name rest same
        cases same
        exact absurd rfl no_ampersand
      · intro name same
        cases same
    | @var name value found =>
      have looked_up : lookup name session = .ok value session := by
        simp only [lookup, get_bind, found]
        rfl
      rw [substitute, bind_ok looked_up, bind_ok ih]
      rfl

end Substitution

/-! ### Literals -/

/-- Wherever a text stands before a delimiter, it is read as these tokens. -/
def Lexes (text : List Char) (words : List Token) : Prop :=
  ∀ rest following, Delimited rest → tokens rest = .ok following →
    tokens (text ++ rest) = .ok (words ++ following)

/-- A text is read as a phrase of the grammar. -/
structure Spells (session : Session σ) (text : List Char) {phrase : Phrase} (tree : Tree phrase) :
    Prop where
  grouped : tree.Grouped
  leaves : tree.LeavesIn session.heap
  lexes : ∃ words, Lexes text words ∧ Forall₂ (Stands session) words tree.tokens

/-- In every heap that has grown out of the one of the session, a phrase gives a result with a
property. -/
def Tree.Gives (session : Session σ) {phrase : Phrase} (tree : Tree phrase)
    (property : Heap → phrase.Result → Prop) : Prop :=
  ∀ heap, session.heap.Grows heap → heap.Closed →
    ∃ result later, tree.evaluate (session.withHeap heap) = .ok result (session.withHeap later) ∧
      heap.Grows later ∧ later.Closed ∧ property later result

/-- A text is read as a phrase whose result has a property. -/
def Literal (session : Session σ) (phrase : Phrase) (text : List Char)
    (property : Heap → phrase.Result → Prop) : Prop :=
  ∃ tree : Tree phrase, Spells session text tree ∧ tree.Gives session property

section Scalars

theorem literal_of_word {word} (lexes : Lexes text [word])
    (stands : Stands session word (.val value)) (scalar : value.handle? = none) :
    Literal session .expression text fun heap => Copies session.heap heap value := by
  refine ⟨.operand (.value value), ⟨trivial, Value.in_of_scalar scalar, [word], lexes,
    .cons stands .nil⟩, fun heap _ closed => ?_⟩
  exact ⟨value, heap, rfl, .refl heap, closed, .of_scalar scalar⟩

theorem lexes_quoteLiteral {text} (quotable : Quotable text.toList) :
    Lexes (quoteLiteral text).toList [.val (.str text)] := by
  intro rest following delimited others
  have ends : rest.head? ≠ some '\'' := fun head => by
    have := delimited '\'' head
    simp at this
  have read := tokens_quoted quotable ends others
  rw [String.ofList_toList] at read
  simpa [toList_quoteLiteral] using read

theorem literal_str {text} (quotable : Quotable text.toList) :
    Literal session .expression (quoteLiteral text).toList
      fun heap => Copies session.heap heap (.str text) :=
  literal_of_word (lexes_quoteLiteral quotable) (.val _) rfl

theorem lexes_toDigits (n : Nat) : Lexes (Nat.toDigits 10 n) [.val (.integer n)] :=
  fun _ _ delimited others => tokens_toDigits delimited others

theorem literal_integer (n : Int) :
    Literal session .expression (integerText n).toList
      fun heap => Copies session.heap heap (.integer n) := by
  cases n with
  | ofNat n =>
    rw [integerText, Nat.toList_repr]
    exact literal_of_word (lexes_toDigits n) (.val _) rfl
  | negSucc n =>
    -- a negative number is read as a unary operator and its absolute value
    let size : Tree .expression := .operand (.value (.integer (n + 1 : Nat)))
    refine ⟨.unary .minus rfl size, ⟨⟨(by decide : 5 ≤ 6), trivial⟩, Value.in_of_scalar rfl,
      [.op .minus, .val (.integer (n + 1 : Nat))], ?_, ?_⟩, fun heap _ closed => ?_⟩
    · intro rest following delimited others
      rw [integerText, String.toList_append, Nat.toList_repr]
      have digits := lexes_toDigits (n + 1) rest following delimited others
      exact tokens_mark .minus (by decide) digits
    · exact .cons (.op (by decide) (by decide)) (.cons (.val _) .nil)
    · exact ⟨.integer (Int.negSucc n), heap, rfl, .refl heap, closed, .of_scalar rfl⟩

theorem find?_builtin (space : Namespace Value) (bare : String) :
    space.find? ("v:" ++ bare) = .ok (space.builtins.get? bare) := by
  have resolved : resolve ("v:" ++ bare) = .ok (.builtin, bare) := by
    simp [resolve, String.toList_append, Scope.ofSigil?]
  simp only [Namespace.find?, resolved]
  rfl

theorem literal_constant (bare : String) (letters : bare.toList.all continuesName = true)
    (bound : session.vars.builtins.get? bare = some value) (scalar : value.handle? = none) :
    Literal session .expression ("v:" ++ bare).toList
      fun heap => Copies session.heap heap value := by
  have stands : Stands session (.var ("v:" ++ bare)) (.val value) :=
    .var (by rw [find?_builtin, bound])
  refine literal_of_word (fun rest following delimited others => ?_) stands scalar
  have continues : ∀ c ∈ ':' :: bare.toList, continuesName c = true :=
    forall_mem_cons.mpr ⟨rfl, all_eq_true.mp letters⟩
  have spelled : ("v:" ++ bare).toList = 'v' :: ':' :: bare.toList := by
    rw [String.toList_append]
    rfl
  have read := tokens_name (c := 'v') delimited rfl rfl rfl rfl continues others
  rw [← spelled, String.ofList_toList] at read
  rw [spelled]
  exact read

end Scalars

section Containers

variable {texts : List (List Char)}

/-- The parts of a literal are read one by one. -/
theorem literal_parts (element : Element) {α : Type} (property : Heap → α → element.Result → Prop)
    (grow : ∀ {heap later item result}, heap.Closed → heap.Grows later →
      property heap item result → property later item result) {items}
    (each : Forall₂ (fun item text => Literal session (.part element) text
      fun heap part => ∃ result, part = some result ∧ property heap item result) items texts) :
    Literal session (.parts element) ([',', ' '].intercalate texts)
      fun heap results => Forall₂ (property heap) items results := by
  induction each with
  | nil =>
    refine ⟨.lastPart (.missing element), ⟨trivial, trivial, [], ?_, .nil⟩,
      fun heap _ closed => ⟨[], heap, rfl, .refl heap, closed, .nil⟩⟩
    exact fun _ _ _ others => others
  | cons first others ih =>
    obtain ⟨part, part_spells, part_gives⟩ := first
    cases others with
    | nil =>
      refine ⟨.lastPart part, ⟨part_spells.grouped, part_spells.leaves, ?_⟩,
        fun heap grown closed => ?_⟩
      · rw [intercalate_singleton]
        exact part_spells.lexes
      · obtain ⟨_, later, evaluated, grows, later_closed, result, rfl, good⟩ :=
          part_gives heap grown closed
        refine ⟨[result], later, ?_, grows, later_closed, .cons good .nil⟩
        exact bind_ok evaluated
    | cons =>
      obtain ⟨rest, rest_spells, rest_gives⟩ := ih
      obtain ⟨words, part_lexes, part_stand⟩ := part_spells.lexes
      obtain ⟨more, rest_lexes, rest_stand⟩ := rest_spells.lexes
      refine ⟨.moreParts part rest, ⟨⟨part_spells.grouped, rest_spells.grouped⟩,
        ⟨part_spells.leaves, rest_spells.leaves⟩, words ++ .op .comma :: more, ?_, ?_⟩,
        fun heap grown closed => ?_⟩
      · intro after following delimited others_read
        have after_comma := rest_lexes after following delimited others_read
        rw [← tokens_blank (c := ' ') rfl] at after_comma
        have read := part_lexes _ _ (by simp [Delimited])
          (tokens_mark (c := ',') .comma (by decide) after_comma)
        simpa using read
      · exact rel_append part_stand (.cons (.op (by decide) (by decide)) rest_stand)
      · obtain ⟨_, between, part_done, part_grows, between_closed, result, rfl, good⟩ :=
          part_gives heap grown closed
        obtain ⟨results, later, rest_done, rest_grows, later_closed, all_good⟩ :=
          rest_gives between (grown.trans part_grows) between_closed
        refine ⟨result :: results, later, ?_, part_grows.trans rest_grows, later_closed,
          .cons (grow between_closed rest_grows good) all_good⟩
        refine (bind_ok part_done).trans ?_
        exact bind_ok rest_done

theorem Spells.brackets {element} {parts : Tree (.parts element)}
    (spells : Spells session text parts) {opening closing left right}
    (opens : (opening, left) ∈ marks) (closes : (closing, right) ∈ marks)
    (delimits : Delimited [closing]) :
    ∃ words, Lexes (opening :: text ++ [closing]) words ∧
      Forall₂ (Stands session) words (.op left :: parts.tokens ++ [.op right]) := by
  have plain {c : Char} {symbol : Op} (mark : (c, symbol) ∈ marks) :
      Stands session (.op symbol) (.op symbol) := by
    refine .op ?_ ?_ <;> rintro rfl <;> simp [marks] at mark
  obtain ⟨words, lexes, stand⟩ := spells.lexes
  refine ⟨.op left :: words ++ [.op right], fun rest following _ others => ?_, ?_⟩
  · have read := lexes (closing :: rest) _ delimits (tokens_mark right closes others)
    simpa using tokens_mark left opens read
  · exact .cons (plain opens) (rel_append stand (.cons (plain closes) .nil))

theorem literal_list
    (each : Forall₂ (fun item text => Literal session .expression text
      fun heap => Copies session.heap heap item) (session.heap.list cell) texts) :
    Literal session .expression ('[' :: [',', ' '].intercalate texts ++ [']'])
      fun heap => Copies session.heap heap (.list cell) := by
  have part {item : Value} {text : List Char}
      (content : Literal session .expression text fun heap => Copies session.heap heap item) :
      Literal session (.part .item) text
        fun heap part => ∃ copy, part = some copy ∧ Copies session.heap heap item copy := by
    obtain ⟨tree, spells, gives⟩ := content
    refine ⟨.item tree, ⟨spells.grouped, spells.leaves, spells.lexes⟩, fun heap grown closed => ?_⟩
    obtain ⟨copy, later, evaluated, grows, later_closed, copies⟩ := gives heap grown closed
    exact ⟨some copy, later, bind_ok evaluated, grows, later_closed, copy, rfl, copies⟩
  obtain ⟨items, spells, gives⟩ :=
    literal_parts .item (Copies session.heap) .grow (each.imp fun _ _ => part)
  refine ⟨.operand (.list items), ⟨spells.grouped, spells.leaves, ?_⟩, fun heap grown closed => ?_⟩
  · exact spells.brackets (by decide) (by decide) (by simp [Delimited])
  · obtain ⟨copies, between, evaluated, grows, between_closed, same⟩ := gives heap grown closed
    have adds := Heap.AddsCopy.pushList same
    refine ⟨_, _, ?_, grows.trans adds.grows, adds.later_closed between_closed,
      adds.copies between_closed⟩
    exact bind_ok evaluated

theorem literal_entry {key} (quotable : Quotable key.toList)
    (content : Literal session .expression text fun heap => Copies session.heap heap value) :
    Literal session (.part .entry) ((quoteLiteral key).toList ++ ':' :: ' ' :: text)
      fun heap part => ∃ pair, part = some pair ∧ pair.1 = .str key ∧
        Copies session.heap heap value pair.2 := by
  obtain ⟨tree, spells, gives⟩ := content
  obtain ⟨words, lexes, stand⟩ := spells.lexes
  refine ⟨.entry (.operand (.value (.str key))) tree,
    ⟨⟨trivial, spells.grouped⟩, ⟨Value.in_of_scalar rfl, spells.leaves⟩,
      .val (.str key) :: .op .colon :: words, ?_, ?_⟩, fun heap grown closed => ?_⟩
  · intro rest following delimited others
    have after_colon := lexes rest following delimited others
    rw [← tokens_blank (c := ' ') rfl] at after_colon
    have read := tokens_quoted quotable (by simp)
      (tokens_mark (c := ':') .colon (by decide) after_colon)
    rw [String.ofList_toList] at read
    simpa [toList_quoteLiteral] using read
  · exact .cons (.val _) (.cons (.op (by decide) (by decide)) stand)
  · obtain ⟨copy, later, evaluated, grows, later_closed, copies⟩ := gives heap grown closed
    exact ⟨_, later, bind_ok evaluated, grows, later_closed, (.str key, copy), rfl, rfl, copies⟩

theorem literal_object (distinct : (session.heap.object cell).keys.Nodup)
    (quotable : ∀ key ∈ (session.heap.object cell).keys, Quotable key.toList)
    (each : Forall₂ (fun held text => Literal session .expression text
      fun heap => Copies session.heap heap held) (session.heap.object cell).values texts) :
    Literal session .expression
      ('\x7b' :: [',', ' '].intercalate (zipWith
        (fun key text => (quoteLiteral key).toList ++ ':' :: ' ' :: text)
        (session.heap.object cell).keys texts) ++ ['\x7d'])
      fun heap => Copies session.heap heap (.object cell) := by
  let property (heap : Heap) (entry : String × Value) (pair : Value × Value) : Prop :=
    pair.1 = .str entry.1 ∧ Copies session.heap heap entry.2 pair.2
  rw [Table.keys, zipWith_map_left]
  obtain ⟨entries, spells, gives⟩ := literal_parts .entry property
    (fun closed grows good => ⟨good.1, good.2.grow closed grows⟩)
    (forall₂_zipWith (forall₂_map_left_iff.mp each) fun entry mem _ =>
      literal_entry (quotable _ (mem_map_of_mem mem)))
  refine ⟨.operand (.object entries), ⟨spells.grouped, spells.leaves, ?_⟩,
    fun heap grown closed => ?_⟩
  · exact spells.brackets (by decide) (by decide) (by simp [Delimited])
  · obtain ⟨pairs, between, evaluated, grows, between_closed, same⟩ := gives heap grown closed
    -- the texts of the keys are the keys, so the new table has the same ones
    let copied : List (String × Value) := pairs.map fun pair => (between.text pair.1, pair.2)
    have entries_same : Forall₂ (SameEntry (Copies session.heap between))
        (session.heap.object cell).entries copied := by
      refine forall₂_map_right_iff.mpr (same.imp fun entry pair good => ⟨?_, good.2⟩)
      exact (congrArg between.text good.1).symm
    have keys_eq : (session.heap.object cell).keys = copied.map (·.1) :=
      map_eq_map_of_forall₂ entries_same fun _ _ _ _ same => same.1
    have adds := Heap.AddsCopy.pushObject ⟨copied⟩ entries_same
    refine ⟨_, _, ?_, grows.trans adds.grows, adds.later_closed between_closed,
      adds.copies between_closed⟩
    refine (bind_ok evaluated).trans ?_
    change onHeap (Mem.newObject (.ofList copied)) (session.withHeap between) = _
    rw [Table.ofList_of_nodup (keys_eq ▸ distinct)]
    rfl

end Containers

/-! ### Texts of values -/

/-- The builtin variables that hold no container have their values. -/
def Session.HasBuiltins (session : Session σ) : Prop :=
  ∀ entry ∈ builtinVariables, session.vars.builtins.get? entry.1 = some entry.2

/-- Nil, a Bool, an Integer, a Str that can be quoted, a List, or an Object with distinct keys that
can be quoted. -/
def Heap.Legible (heap : Heap) : Value → Prop
  | .nil | .bool _ | .integer _ | .list _ => True
  | .str text => Quotable text.toList
  | .object cell =>
    (heap.object cell).keys.Nodup ∧ ∀ key ∈ (heap.object cell).keys, Quotable key.toList
  | .number _ | .function _ => False

instance (heap : Heap) (value : Value) : Decidable (heap.Legible value) := by
  cases value <;> unfold Heap.Legible <;> infer_instance

theorem Heap.Legible.definite {heap : Heap} (legible : heap.Legible value) :
    heap.Definite value := by
  cases value with
  | nil | bool | integer | str | list | function => trivial
  | number => exact legible.elim
  | object => exact legible.1

theorem toList_bracketed {opening closing first last} (texts : List String)
    (opens : opening.toList = [first]) (closes : closing.toList = [last]) :
    (opening ++ ", ".intercalate texts ++ closing).toList =
      first :: [',', ' '].intercalate (texts.map String.toList) ++ [last] := by
  have comma : ", ".toList = [',', ' '] := rfl
  rw [String.toList_append, String.toList_append, String.toList_intercalate, opens, closes, comma,
    singleton_append]

/-- The text of a tree without marks is a literal for a copy of the value, if the value is legible.
-/
theorem Heap.Unfolds.literal (builtins : session.HasBuiltins) {around tree}
    (unfolds : session.heap.Unfolds around value tree) (unmarked : tree.marks = [])
    (legible : session.heap.Throughout session.heap.Legible value) :
    Literal session .expression tree.text.toList fun heap => Copies session.heap heap value := by
  refine unfolds.unmarked_induct (motive := fun value tree =>
    session.heap.Throughout session.heap.Legible value → Literal session .expression
      tree.text.toList fun heap => Copies session.heap heap value) ?leaf ?node unmarked legible
  case leaf =>
    intro value scalar legible
    have own := legible.self
    rw [Value.Tree.text]
    cases value with
    | nil =>
      exact literal_constant "null" rfl
        (builtins ("null", .nil) (by simp [builtinVariables])) rfl
    | bool b =>
      cases b with
      | true =>
        exact literal_constant "true" rfl
          (builtins ("true", .bool true) (by simp [builtinVariables])) rfl
      | false =>
        exact literal_constant "false" rfl
          (builtins ("false", .bool false) (by simp [builtinVariables])) rfl
    | integer n => exact literal_integer n
    | str text => exact literal_str own
    | number | function => exact own.elim
    | list | object => cases scalar
  case node =>
    intro handle branches inside legible
    have texts : Forall₂ (fun held text => Literal session .expression text
        fun heap => Copies session.heap heap held) (session.heap.contents handle)
        (branches.map (String.toList ∘ Value.Tree.text)) :=
      forall₂_map_right_iff.mpr
        (inside.imp fun _ _ good => good.2 (legible.held (.of_mem good.1)))
    cases handle with
    | list cell =>
      rw [keys, Value.Tree.text, toList_bracketed _ rfl rfl, map_map]
      exact literal_list texts
    | object cell =>
      have own := legible.self
      have entry_text (key text : String) : (quoteLiteral key ++ ": " ++ text).toList =
          (quoteLiteral key).toList ++ ':' :: ' ' :: text.toList := by
        simp [String.toList_append]
      have literal := literal_object own.1 own.2 texts
      rw [zipWith_map_right] at literal
      rw [keys, Value.Tree.text, toList_bracketed _ rfl rfl, map_zipWith]
      simp only [entry_text, zipWith_map_right]
      exact literal

/-- A literal for a copy of a value is evaluated to a copy of the value. -/
theorem Literal.evaluate {text}
    (literal : Literal session .expression text.toList fun heap => Copies session.heap heap value)
    (closed : session.heap.Closed) (host : Host σ) (engine : Engine σ) :
    ∃ result after, Vimlet.evaluate host engine text session = .ok result after ∧
      session.heap.Grows after.heap ∧
      ∀ depth, after.heap.unfold depth result = session.heap.unfold depth value := by
  obtain ⟨tree, ⟨grouped, leaves, words, lexes, stand⟩, gives⟩ := literal
  have read : tokens (text.toList ++ []) = .ok (words ++ []) :=
    lexes [] [] (by simp [Delimited]) tokens_nil
  rw [append_nil, append_nil] at read
  have words_ne : words ≠ [] := by
    rintro rfl
    exact tokens_ne_nil tree trivial (forall₂_nil_left_iff.mp stand)
  obtain ⟨copy, later, evaluated, grows, _, copies⟩ := gives session.heap (.refl _) closed
  obtain ⟨_, _, denotes⟩ := Denotes.of_evaluate leaves (.refl session.heap) evaluated
  obtain ⟨result, after, reduced, after_grows, _, last, last_tokens, last_grouped, last_denotes⟩ :=
    reduceWithin_represents closed engine text tree.tokens.length tree.tokens session le_rfl
      ⟨.refl _, rfl, tree, rfl, grouped, denotes⟩
  obtain ⟨_, same⟩ := last_denotes.settled (settled_of_tokens last_grouped last_tokens)
  have twins : Twins session.heap later after.heap := ⟨closed, grows, after_grows⟩
  refine ⟨result, after, ?_, after_grows, fun depth => ?_⟩
  · have substituted := substitute_of_stand stand host
    rw [← markCalls_of_stand stand] at substituted
    obtain ⟨word, others, rfl⟩ := exists_cons_of_ne_nil words_ne
    rw [Vimlet.evaluate, lex, read]
    exact (bind_ok substituted).trans reduced
  · rw [← twins.unfold_eq same depth, copies.unfold_eq depth]

theorem Session.new_hasBuiltins (host : σ) (timeout : Float) :
    (new host timeout).HasBuiltins := by
  simp only [HasBuiltins, builtinVariables, forall_mem_cons]
  exact ⟨rfl, rfl, rfl, rfl, rfl, rfl, rfl, rfl, rfl, rfl, rfl, rfl, rfl,
    forall_mem_nil _⟩

/-- The texts of values are read back. A Str is read as itself exactly if no backslash in it stands
before a single quote or at the end, and values without cycles that are made of such texts, Nil,
Bools and Integers are equal to what their texts evaluate to. -/
theorem display_reads_back (host : Host σ) :
    (∀ (heap : Heap) (text : String),
      lex (heap.display (.str text)) = .ok [.val (.str text)] ↔ Quotable text.toList) ∧
    ∀ (session : Session σ) (value : Value), session.HasBuiltins → session.heap.Closed →
      value.In session.heap → session.heap.Acyclic value →
      session.heap.Throughout session.heap.Legible value →
      ∃ result after, eval host (session.heap.display value) session = .ok result after ∧
        after.heap.equal? value result = some true := by
  refine ⟨fun _ text => lex_quoteLiteral_eq_iff text, ?_⟩
  intro session value builtins closed valid acyclic legible
  have started : session.begin.HasBuiltins := by
    rw [HasBuiltins, session.begin_vars]
    exact builtins
  have eval_eq : (engine host).eval = evaluate host (Engine.ofDepth host (maxNesting - 1)) := rfl
  rw [← session.begin_heap] at closed valid acyclic legible ⊢
  obtain ⟨tree, unfolds⟩ := Heap.Unfolds.exists_tree session.begin.heap [] value
  have literal := unfolds.literal started (unfolds.marks_eq_nil_iff.mpr acyclic) legible
  rw [← unfolds.display_eq] at literal
  obtain ⟨result, after, evaluated, grows, same⟩ := literal.evaluate closed host _
  refine ⟨result, { after with runs := session.runs }, ?_, ?_⟩
  · rw [eval, eval_eq, enclosed, evaluated]
  · refine Heap.equal?_of_unfold_eq (grows.acyclic closed valid acyclic) ?_ fun depth => ?_
    · exact grows.throughout closed valid
        (fun _ inner_valid legible => grows.definite inner_valid legible.definite) legible
    · rw [grows.unfold_eq closed valid, same]

/-- A session whose heap holds a List in an Object. -/
def Session.sample : Session Recorder :=
  { new {} 5.0 with
    heap :=
      { lists := #[{}, { items := #[.integer (-7), .bool true, .nil, .str "a\\b'c"] }]
        objects := #[⟨[("it's", .list 1), ("", .object 1)]⟩, ⟨[]⟩] } }

def Value.sampleRank : Value → Nat
  | .object 0 => 2
  | .list _ | .object _ => 1
  | _ => 0

/-- An Object with a quoted key, a List with a negative Integer and a backslash, and an empty Object
is read back. -/
theorem display_reads_back_nested :
    let session := sample
    session.heap.display (.object 0) =
        "\x7b'it''s': [-7, v:true, v:null, 'a\\b''c'], '': \x7b\x7d\x7d" ∧
      session.HasBuiltins ∧ session.heap.Closed ∧ Value.In session.heap (.object 0) ∧
      session.heap.Acyclic (.object 0) ∧
      session.heap.Throughout session.heap.Legible (.object 0) ∧
      ∃ result after,
        eval Recorder.host (session.heap.display (.object 0)) session = .ok result after ∧
        after.heap.equal? (.object 0) result = some true := by
  have builtins : sample.HasBuiltins := new_hasBuiltins ({} : Recorder) 5.0
  have closed : sample.heap.Closed := Heap.forall_contents (by decide) (by decide)
  have valid : Value.In sample.heap (.object 0) := by decide
  have acyclic : sample.heap.Acyclic (.object 0) :=
    Heap.acyclic_of_rank Value.sampleRank (Heap.forall_contents (by decide) (by decide)) _
  have legible : sample.heap.Throughout sample.heap.Legible (.object 0) :=
    .of_forall (by decide) (Heap.forall_contents (by decide) (by decide))
  exact ⟨by decide +kernel, builtins, closed, valid, acyclic, legible,
    (display_reads_back Recorder.host).2 sample (.object 0) builtins closed valid acyclic
      legible⟩

end Vimlet
