import Vimlet.Proofs.Expr.Denotation

/-!
# Places in a syntax tree

A slot is a node with one of its parts left out, and a route leads through slots from the root of a
tree to one of its nodes. Every operator among the tokens of a tree belongs to one node of it.
-/

namespace Vimlet

open Reduce List

variable {σ : Type}
variable {hole whole : Phrase} {before after others : List Token} {symbol : Op} {start : Session σ}
  {right heap : Heap} {precedence outer : Nat} {token : Token}

/-- A node without one of its parts: the sort of the part and the sort of the node. -/
inductive Slot : Phrase → Phrase → Type where
  | paren : Slot .expression .operand
  | list : Slot (.parts .item) .operand
  | object : Slot (.parts .entry) .operand
  | indexBase (key : Tree .expression) : Slot .operand .operand
  | indexKey (base : Tree .operand) : Slot .expression .operand
  | sliceBase (first last : Tree (.part .item)) : Slot .operand .operand
  | sliceFirst (base : Tree .operand) (last : Tree (.part .item)) : Slot (.part .item) .operand
  | sliceLast (base : Tree .operand) (first : Tree (.part .item)) : Slot (.part .item) .operand
  | operand : Slot .operand .expression
  | unary (symbol : Op) (isUnary : symbol.isUnary = true) : Slot .expression .expression
  | binaryLeft (symbol : Op) (precedence : Nat) (isBinary : symbol.precedence? = some precedence)
      (right : Tree .expression) : Slot .expression .expression
  | binaryRight (symbol : Op) (precedence : Nat) (isBinary : symbol.precedence? = some precedence)
      (left : Tree .expression) : Slot .expression .expression
  | item : Slot .expression (.part .item)
  | entryKey (content : Tree .expression) : Slot .expression (.part .entry)
  | entryContent (key : Tree .expression) : Slot .expression (.part .entry)
  | lastPart (element : Element) : Slot (.part element) (.parts element)
  | morePart {element} (rest : Tree (.parts element)) : Slot (.part element) (.parts element)
  | moreRest {element} (part : Tree (.part element)) : Slot (.parts element) (.parts element)

theorem Tree.operand_level (tree : Tree .operand) : tree.level = 6 := by
  cases tree <;> rfl

namespace Slot

/-- Puts a part into its place. -/
def plug : {hole whole : Phrase} → Slot hole whole → Tree hole → Tree whole
  | _, _, paren, inner => .paren inner
  | _, _, list, items => .list items
  | _, _, object, entries => .object entries
  | _, _, indexBase key, base => .index base key
  | _, _, indexKey base, key => .index base key
  | _, _, sliceBase first last, base => .slice base first last
  | _, _, sliceFirst base last, first => .slice base first last
  | _, _, sliceLast base first, last => .slice base first last
  | _, _, operand, inner => .operand inner
  | _, _, unary symbol isUnary, inner => .unary symbol isUnary inner
  | _, _, binaryLeft symbol precedence isBinary right, left =>
    .binary symbol precedence isBinary left right
  | _, _, binaryRight symbol precedence isBinary left, right =>
    .binary symbol precedence isBinary left right
  | _, _, item, inner => .item inner
  | _, _, entryKey content, key => .entry key content
  | _, _, entryContent key, content => .entry key content
  | _, _, lastPart _, part => .lastPart part
  | _, _, morePart rest, part => .moreParts part rest
  | _, _, moreRest part, rest => .moreParts part rest

/-- The tokens before the part that is left out. -/
def front : {hole whole : Phrase} → Slot hole whole → List Token
  | _, _, paren => [.op .leftParen]
  | _, _, list => [.op .leftBracket]
  | _, _, object => [.op .leftBrace]
  | _, _, indexKey base => base.tokens ++ [.op .leftBracket]
  | _, _, sliceFirst base _ => base.tokens ++ [.op .leftBracket]
  | _, _, sliceLast base first => base.tokens ++ .op .leftBracket :: first.tokens ++ [.op .colon]
  | _, _, unary symbol _ => [.op symbol]
  | _, _, binaryRight symbol _ _ left => left.tokens ++ [.op symbol]
  | _, _, entryContent key => key.tokens ++ [.op .colon]
  | _, _, moreRest part => part.tokens ++ [.op .comma]
  | _, _, indexBase _ | _, _, sliceBase _ _ | _, _, operand | _, _, binaryLeft .. | _, _, item
  | _, _, entryKey _ | _, _, lastPart _ | _, _, morePart _ => []

/-- The tokens after the part that is left out. -/
def back : {hole whole : Phrase} → Slot hole whole → List Token
  | _, _, paren => [.op .rightParen]
  | _, _, list => [.op .rightBracket]
  | _, _, object => [.op .rightBrace]
  | _, _, indexBase key => .op .leftBracket :: key.tokens ++ [.op .rightBracket]
  | _, _, indexKey _ => [.op .rightBracket]
  | _, _, sliceBase first last =>
    .op .leftBracket :: first.tokens ++ .op .colon :: last.tokens ++ [.op .rightBracket]
  | _, _, sliceFirst _ last => .op .colon :: last.tokens ++ [.op .rightBracket]
  | _, _, sliceLast _ _ => [.op .rightBracket]
  | _, _, binaryLeft symbol _ _ right => .op symbol :: right.tokens
  | _, _, entryKey content => .op .colon :: content.tokens
  | _, _, morePart rest => .op .comma :: rest.tokens
  | _, _, operand | _, _, unary .. | _, _, binaryRight .. | _, _, item | _, _, entryContent _
  | _, _, lastPart _ | _, _, moreRest _ => []

/-- How tight the part that is left out must bind. -/
def level : {hole whole : Phrase} → Slot hole whole → Nat
  | _, _, indexBase _ | _, _, sliceBase _ _ | _, _, operand => 6
  | _, _, unary .. => 5
  | _, _, binaryLeft _ precedence _ _ => precedence
  | _, _, binaryRight _ precedence _ _ => precedence + 1
  | _, _, _ => 0

theorem tokens_plug (slot : Slot hole whole) (part : Tree hole) :
    (slot.plug part).tokens = slot.front ++ part.tokens ++ slot.back := by
  cases slot <;> simp [plug, front, back, Tree.tokens]

theorem level_plug (slot : Slot hole whole) (part other : Tree hole) :
    (slot.plug part).level = (slot.plug other).level := by
  cases slot <;> rfl

variable {slot : Slot hole whole} {part : Tree hole}

theorem grouped_part (grouped : (slot.plug part).Grouped) :
    part.Grouped ∧ slot.level ≤ part.level := by
  cases slot with
  | paren | list | object | item | lastPart => exact ⟨grouped, Nat.zero_le _⟩
  | indexBase | sliceBase => exact ⟨grouped.1, part.operand_level.ge⟩
  | operand => exact ⟨grouped, part.operand_level.ge⟩
  | indexKey | entryContent | moreRest => exact ⟨grouped.2, Nat.zero_le _⟩
  | sliceFirst => exact ⟨grouped.2.1, Nat.zero_le _⟩
  | sliceLast => exact ⟨grouped.2.2, Nat.zero_le _⟩
  | unary => exact ⟨grouped.2, grouped.1⟩
  | binaryLeft => exact ⟨grouped.2.2.1, grouped.1⟩
  | binaryRight => exact ⟨grouped.2.2.2, grouped.2.1⟩
  | entryKey | morePart => exact ⟨grouped.1, Nat.zero_le _⟩

/-- A part may be replaced by another one that binds at least as tight. -/
theorem grouped_replace {other} (grouped : (slot.plug part).Grouped)
    (tighter : part.level ≤ other.level) (other_grouped : other.Grouped) :
    (slot.plug other).Grouped := by
  cases slot with
  | paren | list | object | item | lastPart | operand => exact other_grouped
  | indexBase | entryKey | morePart | sliceBase => exact ⟨other_grouped, grouped.2⟩
  | indexKey | entryContent | moreRest => exact ⟨grouped.1, other_grouped⟩
  | sliceFirst => exact ⟨grouped.1, other_grouped, grouped.2.2⟩
  | sliceLast => exact ⟨grouped.1, grouped.2.1, other_grouped⟩
  | unary => exact ⟨grouped.1.trans tighter, other_grouped⟩
  | binaryLeft => exact ⟨grouped.1.trans tighter, grouped.2.1, other_grouped, grouped.2.2.2⟩
  | binaryRight =>
    exact ⟨grouped.1, grouped.2.1.trans_le tighter, grouped.2.2.1, other_grouped⟩

theorem denotes_replace {result} (denotes : Denotes start right (slot.plug part) heap result) :
    ∃ part_heap part_result, Denotes start right part part_heap part_result ∧
      ∀ later other, right.Grows later → Denotes start later other part_heap part_result →
        Denotes start later (slot.plug other) heap result := by
  cases slot with
  | paren | operand => exact ⟨heap, result, denotes, fun _ _ _ same => same⟩
  | list | object | unary =>
    obtain ⟨middle, values, inner, done⟩ := denotes
    exact ⟨middle, values, inner, fun _ _ _ same => ⟨middle, values, same, done⟩⟩
  | indexBase | binaryLeft =>
    obtain ⟨middle, a, between, b, first, second, done⟩ := denotes
    exact ⟨middle, a, first, fun _ _ grows same =>
      ⟨middle, a, between, b, same, second.mono grows, done⟩⟩
  | indexKey | binaryRight =>
    obtain ⟨middle, a, between, b, first, second, done⟩ := denotes
    exact ⟨between, b, second, fun _ _ grows same =>
      ⟨middle, a, between, b, first.mono grows, same, done⟩⟩
  | sliceBase =>
    obtain ⟨middle, a, between, b, after, c, base, first, last, done⟩ := denotes
    exact ⟨middle, a, base, fun _ _ grows same =>
      ⟨middle, a, between, b, after, c, same, first.mono grows, last.mono grows, done⟩⟩
  | sliceFirst =>
    obtain ⟨middle, a, between, b, after, c, base, first, last, done⟩ := denotes
    exact ⟨between, b, first, fun _ _ grows same =>
      ⟨middle, a, between, b, after, c, base.mono grows, same, last.mono grows, done⟩⟩
  | sliceLast =>
    obtain ⟨middle, a, between, b, after, c, base, first, last, done⟩ := denotes
    exact ⟨after, c, last, fun _ _ grows same =>
      ⟨middle, a, between, b, after, c, base.mono grows, first.mono grows, same, done⟩⟩
  | item | lastPart =>
    obtain ⟨v, inner, same_result⟩ := denotes
    exact ⟨heap, v, inner, fun _ _ _ same => ⟨v, same, same_result⟩⟩
  | entryKey | morePart =>
    obtain ⟨middle, a, b, first, second, same_result⟩ := denotes
    exact ⟨middle, a, first, fun _ _ grows same =>
      ⟨middle, a, b, same, second.mono grows, same_result⟩⟩
  | entryContent | moreRest =>
    obtain ⟨middle, a, b, first, second, same_result⟩ := denotes
    exact ⟨heap, b, second, fun _ _ grows same =>
      ⟨middle, a, b, first.mono grows, same, same_result⟩⟩

end Slot

/-- The way from the root of a tree to a node. -/
inductive Route (hole : Phrase) : Phrase → Type where
  | here : Route hole hole
  | inside {middle whole} (slot : Slot middle whole) (route : Route hole middle) : Route hole whole

variable {phrase : Phrase}

theorem Tree.level_le_six (tree : Tree phrase) : tree.level ≤ 6 := by
  cases tree with
  | binary symbol precedence isBinary =>
    cases symbol <;> cases isBinary <;> simp [Tree.level]
  | _ => simp [Tree.level]

namespace Route

def plug : {whole : Phrase} → Route hole whole → Tree hole → Tree whole
  | _, here, node => node
  | _, inside slot route, node => slot.plug (route.plug node)

def front : {whole : Phrase} → Route hole whole → List Token
  | _, here => []
  | _, inside slot route => slot.front ++ route.front

def back : {whole : Phrase} → Route hole whole → List Token
  | _, here => []
  | _, inside slot route => route.back ++ slot.back

/-- How tight the node must bind, if the whole tree must bind as tight as some level says. -/
def level : {whole : Phrase} → Route hole whole → Nat → Nat
  | _, here, outer => outer
  | _, inside slot route, _ => route.level slot.level

theorem tokens_plug (route : Route hole whole) (node : Tree hole) :
    (route.plug node).tokens = route.front ++ node.tokens ++ route.back := by
  induction route with
  | here => simp [plug, front, back]
  | inside slot route ih => simp [plug, front, back, Slot.tokens_plug, ih]

theorem grouped_node {route : Route hole whole} {node} (grouped : (route.plug node).Grouped) :
    node.Grouped := by
  induction route with
  | here => exact grouped
  | inside slot route ih => exact ih (Slot.grouped_part grouped).1

theorem grouped_replace {route : Route hole whole} {node other}
    (grouped : (route.plug node).Grouped) (tightest : other.level = 6)
    (other_grouped : other.Grouped) :
    (route.plug other).Grouped ∧ (route.plug node).level ≤ (route.plug other).level := by
  induction route with
  | here => exact ⟨other_grouped, tightest ▸ node.level_le_six⟩
  | inside slot route ih =>
    obtain ⟨inner_grouped, tighter⟩ := ih (Slot.grouped_part grouped).1
    exact ⟨Slot.grouped_replace grouped tighter inner_grouped, (slot.level_plug _ _).le⟩

theorem denotes_replace {route : Route hole whole} {node result}
    (denotes : Denotes start right (route.plug node) heap result) :
    ∃ node_heap node_result, Denotes start right node node_heap node_result ∧
      ∀ later other, right.Grows later → Denotes start later other node_heap node_result →
        Denotes start later (route.plug other) heap result := by
  induction route generalizing heap with
  | here => exact ⟨heap, result, denotes, fun _ _ _ same => same⟩
  | inside slot route ih =>
    obtain ⟨part_heap, part_result, part, replace_part⟩ := Slot.denotes_replace denotes
    obtain ⟨node_heap, node_result, node, replace_node⟩ := ih part
    exact ⟨node_heap, node_result, node, fun later other grows same =>
      replace_part later _ grows (replace_node later other grows same)⟩

end Route

/-! ### What surrounds a node -/

/-- The phrases that stand for one value. -/
def Phrase.IsValue : Phrase → Prop
  | .operand | .expression => True
  | _ => False

/-- No operand starts right after an expression. -/
theorem startsOperand_tokens (tree : Tree phrase) (is_value : phrase.IsValue)
    (before : List Token) :
    startsOperand (tree.tokens.reverse ++ before) = false := by
  induction tree generalizing before with
  | value => rfl
  | paren | list | object | call | apply | index | slice =>
    simp [Tree.tokens, startsOperand, Op.closes]
  | operand _ ih => exact ih trivial before
  | unary symbol _ _ ih => simpa [Tree.tokens] using ih trivial (.op symbol :: before)
  | binary symbol _ _ left _ _ ih =>
    simpa [Tree.tokens] using ih trivial (.op symbol :: (left.tokens.reverse ++ before))
  | missing | item | entry | lastPart | moreParts | noArguments | arguments | lastArgument
  | moreArguments => exact is_value.elim

namespace Op

theorem closes_of_precedence? (isBinary : symbol.precedence? = some precedence) :
    symbol.closes = false := by
  cases symbol <;> first | rfl | cases isBinary

theorem continues_of_precedence? (isBinary : symbol.precedence? = some precedence) :
    symbol.continues = false := by
  cases symbol <;> first | rfl | cases isBinary

theorem closes_of_isUnary (isUnary : symbol.isUnary = true) : symbol.closes = false := by
  cases symbol <;> first | rfl | cases isUnary

end Op

/-- The tokens around a node of at least some level leave its operators free to take their operands.
-/
structure Free (level : Nat) (before after : List Token) : Prop where
  starts : startsOperand before = true
  left (precedence : Nat) (tight : level ≤ precedence) (bound : precedence ≤ 4) :
    leftIsFree precedence before = true
  right (precedence : Nat) (tight : level ≤ precedence) (bound : precedence ≤ 4) :
    rightIsFree precedence after = true
  ends (tight : level ≤ 5) : continuesOperand after = false

namespace Free

variable {level : Nat}

theorem root : Free 0 [] [] := ⟨rfl, fun _ _ _ => rfl, fun _ _ _ => rfl, fun _ => rfl⟩

theorem mono {tighter} (free : Free level before after) (le : level ≤ tighter) :
    Free tighter before after :=
  ⟨free.starts, fun p tight => free.left p (le.trans tight),
    fun p tight => free.right p (le.trans tight), fun tight => free.ends (le.trans tight)⟩

/-- Operands need nothing of what follows them. -/
theorem operand (starts : startsOperand before = true) : Free 6 before after :=
  ⟨starts, fun _ tight bound => by omega, fun _ tight bound => by omega, fun tight => by omega⟩

/-- Between brackets, colons and commas everything is free. -/
theorem between {open_symbol close_symbol} (opens : open_symbol.closes = false)
    (open_loose : open_symbol.precedence? = none) (not_unary : open_symbol.isUnary = false)
    (close_loose : close_symbol.precedence? = none) (ends : close_symbol.continues = false) :
    Free level (.op open_symbol :: before) (.op close_symbol :: after) where
  starts := by simp [startsOperand, opens]
  left _ _ _ := by simp [leftIsFree, open_loose, not_unary]
  right _ _ _ := by simp [rightIsFree, close_loose, ends]
  ends _ := by simp [continuesOperand, ends]

theorem replace_left (free : Free level before after) (opens : symbol.closes = false)
    (loose : symbol.precedence? = none) (not_unary : symbol.isUnary = false) :
    Free level (.op symbol :: others) after where
  starts := by simp [startsOperand, opens]
  left _ _ _ := by simp [leftIsFree, loose, not_unary]
  right := free.right
  ends := free.ends

theorem replace_right (free : Free level before after) (loose : symbol.precedence? = none)
    (ends : symbol.continues = false) :
    Free level before (.op symbol :: others) where
  starts := free.starts
  left := free.left
  right _ _ _ := by simp [rightIsFree, loose, ends]
  ends _ := by simp [continuesOperand, ends]

end Free

theorem Slot.free {slot : Slot hole whole} {part} (free : Free outer before after)
    (tight : outer ≤ (slot.plug part).level) (grouped : (slot.plug part).Grouped) :
    Free slot.level (slot.front.reverse ++ before) (slot.back ++ after) := by
  cases slot with
  | paren | list | object => exact .between rfl rfl rfl rfl rfl
  | indexBase | sliceBase | operand => exact .operand free.starts
  | indexKey | sliceFirst | sliceLast =>
    simp only [Slot.front, Slot.back, reverse_append, reverse_singleton, cons_append, nil_append]
    exact .between rfl rfl rfl rfl rfl
  | unary symbol isUnary =>
    refine ⟨?_, fun _ _ _ => ?_, fun _ _ _ => ?_, fun _ => free.ends tight⟩
    · simp [Slot.front, startsOperand, Op.closes_of_isUnary isUnary]
    · simp only [Slot.level] at *; omega
    · simp only [Slot.level] at *; omega
  | binaryLeft symbol precedence isBinary right =>
    refine ⟨free.starts, fun p le => free.left p (tight.trans le), fun p le _ => ?_, fun _ => ?_⟩
    · have not_tighter : ¬p < precedence := Nat.not_lt.mpr le
      simp [Slot.back, rightIsFree, isBinary, Op.continues_of_precedence? isBinary, not_tighter]
    · simp [Slot.back, continuesOperand, Op.continues_of_precedence? isBinary]
  | binaryRight symbol precedence isBinary left =>
    have looser : outer ≤ precedence + 1 := tight.trans (Nat.le_succ _)
    have later := free.mono looser
    refine ⟨?_, fun p le _ => ?_, later.right, later.ends⟩
    · simp [Slot.front, startsOperand, Op.closes_of_precedence? isBinary]
    · have not_tighter : ¬p ≤ precedence := Nat.not_le.mpr le
      have not_start : startsOperand (left.tokens.reverse ++ before) = false :=
        startsOperand_tokens left trivial before
      simp [Slot.front, leftIsFree, isBinary, not_tighter, not_start]
  | item | lastPart => exact free.mono tight
  | entryKey | morePart => exact (free.mono tight).replace_right rfl rfl
  | entryContent | moreRest =>
    simp only [Slot.front, Slot.back, reverse_append, reverse_singleton, cons_append, nil_append]
    exact (free.mono tight).replace_left rfl rfl rfl

theorem Route.free {route : Route hole whole} {node} (free : Free outer before after)
    (tight : outer ≤ (route.plug node).level) (grouped : (route.plug node).Grouped) :
    Free (route.level outer) (route.front.reverse ++ before) (route.back ++ after) ∧
      route.level outer ≤ node.level := by
  induction route generalizing outer before after with
  | here => exact ⟨free, tight⟩
  | inside slot route ih =>
    obtain ⟨part_grouped, part_tight⟩ := Slot.grouped_part grouped
    have inner := ih (Slot.free free tight grouped) part_tight part_grouped
    simpa [Route.front, Route.back, Route.level] using inner

/-! ### The node of an operator -/

/-- The operators that a node has itself, with the tokens of the node before and after them. -/
inductive Emits : {phrase : Phrase} → Op → Tree phrase → List Token → List Token → Prop where
  | parenOpen (inner : Tree .expression) :
      Emits .leftParen (.paren inner) [] (inner.tokens ++ [.op .rightParen])
  | parenClose (inner : Tree .expression) :
      Emits .rightParen (.paren inner) (.op .leftParen :: inner.tokens) []
  | listOpen (items : Tree (.parts .item)) :
      Emits .leftBracket (.list items) [] (items.tokens ++ [.op .rightBracket])
  | listClose (items : Tree (.parts .item)) :
      Emits .rightBracket (.list items) (.op .leftBracket :: items.tokens) []
  | objectOpen (entries : Tree (.parts .entry)) :
      Emits .leftBrace (.object entries) [] (entries.tokens ++ [.op .rightBrace])
  | objectClose (entries : Tree (.parts .entry)) :
      Emits .rightBrace (.object entries) (.op .leftBrace :: entries.tokens) []
  | indexOpen (base : Tree .operand) (key : Tree .expression) :
      Emits .leftBracket (.index base key) base.tokens (key.tokens ++ [.op .rightBracket])
  | indexClose (base : Tree .operand) (key : Tree .expression) :
      Emits .rightBracket (.index base key) (base.tokens ++ .op .leftBracket :: key.tokens) []
  | sliceOpen (base : Tree .operand) (first last : Tree (.part .item)) :
      Emits .leftBracket (.slice base first last) base.tokens
        (first.tokens ++ .op .colon :: last.tokens ++ [.op .rightBracket])
  | sliceColon (base : Tree .operand) (first last : Tree (.part .item)) :
      Emits .colon (.slice base first last) (base.tokens ++ .op .leftBracket :: first.tokens)
        (last.tokens ++ [.op .rightBracket])
  | sliceClose (base : Tree .operand) (first last : Tree (.part .item)) :
      Emits .rightBracket (.slice base first last)
        (base.tokens ++ .op .leftBracket :: first.tokens ++ .op .colon :: last.tokens) []
  | unary (symbol : Op) (isUnary : symbol.isUnary = true) (inner : Tree .expression) :
      Emits symbol (.unary symbol isUnary inner) [] inner.tokens
  | binary (symbol : Op) (precedence : Nat) (isBinary : symbol.precedence? = some precedence)
      (left right : Tree .expression) :
      Emits symbol (.binary symbol precedence isBinary left right) left.tokens right.tokens
  | entryColon (key content : Tree .expression) :
      Emits .colon (.entry key content) key.tokens content.tokens
  | comma {element} (part : Tree (.part element)) (rest : Tree (.parts element)) :
      Emits .comma (.moreParts part rest) part.tokens rest.tokens

/-- An operator between these tokens belongs to a node of the tree. -/
def Owned {phrase : Phrase} (tree : Tree phrase) (symbol : Op) (before after : List Token) : Prop :=
  ∃ (hole : Phrase) (route : Route hole phrase) (node : Tree hole) (front back : List Token),
    route.plug node = tree ∧ Emits symbol node front back ∧ before = route.front ++ front ∧
      after = back ++ route.back

theorem Emits.owned {tree : Tree phrase} {front back} (emits : Emits symbol tree front back)
    (before_eq : before = front := by simp) (after_eq : after = back := by simp) :
    Owned tree symbol before after :=
  ⟨phrase, .here, tree, front, back, rfl, emits, before_eq,
    after_eq.trans (append_nil back).symm⟩

theorem Owned.inside {part front back} (owned : Owned part symbol front back)
    (slot : Slot hole whole) (before_eq : before = slot.front ++ front := by simp [Slot.front])
    (after_eq : after = back ++ slot.back := by simp [Slot.back]) :
    Owned (slot.plug part) symbol before after := by
  obtain ⟨inner, route, node, front, back, rfl, emits, rfl, rfl⟩ := owned
  exact ⟨inner, .inside slot route, node, front, back, rfl, emits, by simp [Route.front, before_eq],
    by simp [Route.back, after_eq]⟩

section Locate

variable {found : List Token → List Token → Prop} {first second : List Token}

theorem locate_append
    (in_first : ∀ xs ys, first = xs ++ .op symbol :: ys → found xs (ys ++ second))
    (in_second : ∀ xs ys, second = xs ++ .op symbol :: ys → found (first ++ xs) ys)
    (xs ys : List Token) (split : first ++ second = xs ++ .op symbol :: ys) : found xs ys := by
  obtain ⟨between, rfl, second_eq⟩ | ⟨between, first_eq, rest_eq⟩ :=
    append_eq_append_iff.mp split
  · exact in_second between ys second_eq
  · cases between with
    | nil =>
      rw [append_nil] at first_eq
      subst first_eq
      simpa using in_second [] ys rest_eq.symm
    | cons token between =>
      obtain ⟨rfl, rfl⟩ := List.cons.inj rest_eq
      exact in_first xs between first_eq

theorem locate_cons (at_head : token = .op symbol → found [] second)
    (in_second : ∀ xs ys, second = xs ++ .op symbol :: ys → found (token :: xs) ys)
    (xs ys : List Token) (split : token :: second = xs ++ .op symbol :: ys) : found xs ys := by
  cases xs with
  | nil =>
    obtain ⟨same, rfl⟩ := List.cons.inj split
    exact at_head same
  | cons head xs =>
    obtain ⟨rfl, rest_eq⟩ := List.cons.inj split
    exact in_second xs ys rest_eq

theorem locate_last (at_head : token = .op symbol → found [] []) (xs ys : List Token)
    (split : [token] = xs ++ .op symbol :: ys) : found xs ys :=
  locate_cons at_head (fun _ _ rest => by simp at rest) xs ys split

end Locate

/-- Every operator among the tokens of a tree belongs to one of its nodes. -/
theorem owned_of_tokens {tree : Tree phrase} (grouped : tree.Grouped) :
    ∀ before after, tree.tokens = before ++ .op symbol :: after →
      Owned tree symbol before after := by
  induction tree with
  | value v => exact locate_last nofun
  | paren inner ih =>
    refine locate_append (locate_cons ?_ fun xs ys split => ?_) (locate_last ?_)
    · rintro ⟨⟩
      exact (Emits.parenOpen inner).owned
    · exact (ih grouped xs ys split).inside .paren
    · rintro ⟨⟩
      exact (Emits.parenClose inner).owned
  | list items ih =>
    refine locate_append (locate_cons ?_ fun xs ys split => ?_) (locate_last ?_)
    · rintro ⟨⟩
      exact (Emits.listOpen items).owned
    · exact (ih grouped xs ys split).inside .list
    · rintro ⟨⟩
      exact (Emits.listClose items).owned
  | object entries ih =>
    refine locate_append (locate_cons ?_ fun xs ys split => ?_) (locate_last ?_)
    · rintro ⟨⟩
      exact (Emits.objectOpen entries).owned
    · exact (ih grouped xs ys split).inside .object
    · rintro ⟨⟩
      exact (Emits.objectClose entries).owned
  | index base key base_ih key_ih =>
    refine locate_append (locate_append (fun xs ys split => ?_)
      (locate_cons ?_ fun xs ys split => ?_)) (locate_last ?_)
    · exact (base_ih grouped.1 xs ys split).inside (.indexBase key)
    · rintro ⟨⟩
      exact (Emits.indexOpen base key).owned
    · exact (key_ih grouped.2 xs ys split).inside (.indexKey base)
    · rintro ⟨⟩
      exact (Emits.indexClose base key).owned
  | slice base first last base_ih first_ih last_ih =>
    refine locate_append (locate_append (locate_append (fun xs ys split => ?_)
      (locate_cons ?_ fun xs ys split => ?_)) (locate_cons ?_ fun xs ys split => ?_))
      (locate_last ?_)
    · exact (base_ih grouped.1 xs ys split).inside (.sliceBase first last)
    · rintro ⟨⟩
      exact (Emits.sliceOpen base first last).owned
    · exact (first_ih grouped.2.1 xs ys split).inside (.sliceFirst base last)
    · rintro ⟨⟩
      exact (Emits.sliceColon base first last).owned
    · exact (last_ih grouped.2.2 xs ys split).inside (.sliceLast base first)
    · rintro ⟨⟩
      exact (Emits.sliceClose base first last).owned
  | operand inner ih =>
    intro xs ys split
    exact (ih grouped xs ys split).inside .operand
  | unary other isUnary inner ih =>
    refine locate_cons ?_ fun xs ys split => ?_
    · rintro ⟨⟩
      exact (Emits.unary _ isUnary inner).owned
    · exact (ih grouped.2 xs ys split).inside (.unary other isUnary)
  | binary other precedence isBinary left right left_ih right_ih =>
    obtain ⟨_, _, left_grouped, right_grouped⟩ := grouped
    refine locate_append (fun xs ys split => ?_) (locate_cons ?_ fun xs ys split => ?_)
    · exact (left_ih left_grouped xs ys split).inside
        (.binaryLeft other precedence isBinary right)
    · rintro ⟨⟩
      exact (Emits.binary _ precedence isBinary left right).owned
    · exact (right_ih right_grouped xs ys split).inside
        (.binaryRight other precedence isBinary left)
  | missing => exact fun xs ys split => by simp [Tree.tokens] at split
  | item inner ih =>
    intro xs ys split
    exact (ih grouped xs ys split).inside .item
  | entry key content key_ih content_ih =>
    refine locate_append (fun xs ys split => ?_) (locate_cons ?_ fun xs ys split => ?_)
    · exact (key_ih grouped.1 xs ys split).inside (.entryKey content)
    · rintro ⟨⟩
      exact (Emits.entryColon key content).owned
    · exact (content_ih grouped.2 xs ys split).inside (.entryContent key)
  | @lastPart element part ih =>
    intro xs ys split
    exact (ih grouped xs ys split).inside (.lastPart element)
  | moreParts part rest part_ih rest_ih =>
    refine locate_append (fun xs ys split => ?_) (locate_cons ?_ fun xs ys split => ?_)
    · exact (part_ih grouped.1 xs ys split).inside (.morePart rest)
    · rintro ⟨⟩
      exact (Emits.comma part rest).owned
    · exact (rest_ih grouped.2 xs ys split).inside (.moreRest part)
  | call | apply | noArguments | arguments | lastArgument | moreArguments => exact grouped.elim

end Vimlet
