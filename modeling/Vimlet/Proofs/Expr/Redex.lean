import Vimlet.Proofs.Expr.Place

/-!
# Redexes among tokens

A redex is a node whose parts are all values. Where a rule applies to the tokens of a tree with
enough parentheses it replaces a redex of the tree, and every redex is replaced by a rule.
-/

namespace Vimlet

open Reduce List Option

variable {σ : Type}
variable {symbol : Op} {v a : Value} {element : Element} {phrase hole : Phrase}
  {rest before after back : List Token} {precedence : Nat}

/-! ### Phrases in which nothing is left to compute -/

/-- The tokens of which phrases without operations are made. -/
def Token.isPlain : Token → Bool
  | .val _ | .op .comma | .op .colon => true
  | _ => false

section Plain

theorem isPlain_of_isUnary (isUnary : symbol.isUnary = true) :
    (Token.op symbol).isPlain = false := by
  cases symbol <;> first | rfl | cases isUnary

theorem isPlain_of_precedence? (isBinary : symbol.precedence? = some precedence) :
    (Token.op symbol).isPlain = false := by
  cases symbol <;> first | rfl | cases isBinary

theorem isPlain_of_closes (closes : symbol.closes = true) : (Token.op symbol).isPlain = false := by
  cases symbol <;> first | rfl | cases closes

end Plain

theorem tokens_of_settled_operand {tree : Tree .operand} (settled : tree.settled? = some v) :
    tree.tokens = [.val v] := by
  cases tree with
  | value => cases settled; rfl
  | paren | list | object | call | apply | index | slice => cases settled

variable {tree : Tree .expression} {act : Run σ Value} {xs : List Token}

theorem tokens_of_settled (settled : tree.settled? = some v) : tree.tokens = [.val v] := by
  cases tree with
  | operand inner => exact tokens_of_settled_operand settled
  | unary | binary => cases settled

/-- The tokens of a part of a literal, once it is a value. -/
def Element.tokens : (element : Element) → element.Result → List Token
  | .item, value => [.val value]
  | .entry, (key, value) => [.val key, .op .colon, .val value]

def Element.read? : (element : Element) → List Token → Option element.Result
  | .item => item?
  | .entry => entry?

theorem tokens_of_settled_part {tree : Tree (.part element)} {result}
    (settled : tree.settled? = some result) :
    tree.tokens = (result.map element.tokens).getD [] := by
  cases tree with
  | missing => cases settled; rfl
  | item inner =>
    obtain ⟨v, inner_settled, rfl⟩ := map_eq_some_iff.mp settled
    exact tokens_of_settled inner_settled
  | entry key content =>
    obtain ⟨k, key_settled, rest⟩ := bind_eq_some_iff.mp settled
    obtain ⟨c, content_settled, ⟨⟩⟩ := bind_eq_some_iff.mp rest
    simp [Tree.tokens, tokens_of_settled key_settled, tokens_of_settled content_settled,
      Element.tokens]

theorem mapM_parts_part (result : Option element.Result) :
    (parts ((result.map element.tokens).getD [])).mapM element.read? = some result.toList := by
  cases result with
  | none => rfl
  | some result => cases element <;> rfl

theorem mapM_parts_comma (result : Option element.Result) (rest : List Token) :
    (parts ((result.map element.tokens).getD [] ++ .op .comma :: rest)).mapM element.read? =
      ((parts rest).mapM element.read?).map (result.toList ++ ·) := by
  cases result with
  | none =>
    change (parts rest).mapM element.read? = _
    cases (parts rest).mapM element.read? <;> rfl
  | some result =>
    have head : element.read? (element.tokens result) = some result := by cases element <;> rfl
    have divided : parts (element.tokens result ++ .op .comma :: rest) =
        element.tokens result :: parts rest := by cases element <;> rfl
    simp only [map_some, getD_some, divided, mapM_cons, head]
    cases (parts rest).mapM element.read? <;> rfl

theorem isPlain_part (result : Option element.Result) :
    ∀ token ∈ (result.map element.tokens).getD [], token.isPlain = true := by
  cases result with
  | none => simp
  | some result => cases element <;> simp [Element.tokens, Token.isPlain]

/-- A literal is read from its tokens, which are plain, once its parts are values. -/
theorem read_of_settled : (tree : Tree (.parts element)) →
    {results : List element.Result} → tree.settled? = some results →
    (parts tree.tokens).mapM element.read? = some results ∧
      ∀ token ∈ tree.tokens, token.isPlain = true
  | .lastPart part, _, settled => by
    obtain ⟨result, part_settled, rfl⟩ := map_eq_some_iff.mp settled
    rw [Tree.tokens, tokens_of_settled_part part_settled]
    exact ⟨mapM_parts_part result, isPlain_part result⟩
  | .moreParts part rest, _, settled => by
    obtain ⟨result, part_settled, remaining⟩ := bind_eq_some_iff.mp settled
    obtain ⟨results, rest_settled, ⟨⟩⟩ := bind_eq_some_iff.mp remaining
    obtain ⟨read, plain⟩ := read_of_settled rest rest_settled
    rw [Tree.tokens, tokens_of_settled_part part_settled, mapM_parts_comma, read,
      forall_mem_append, forall_mem_cons]
    exact ⟨rfl, isPlain_part result, rfl, plain⟩

/-! ### Progress -/

def HasRedex (σ : Type) {phrase : Phrase} (tree : Tree phrase) : Prop :=
  ∃ (hole : Phrase) (route : Route hole phrase) (node : Tree hole) (act : Run σ Value),
    route.plug node = tree ∧ Redex node act

/-- A tree has a redex, or nothing is left to compute. -/
def Progresses (σ : Type) {phrase : Phrase} (tree : Tree phrase) : Prop :=
  HasRedex σ tree ∨ ∃ result, tree.settled? = some result

theorem Redex.progresses {tree : Tree phrase} (redex : Redex tree act) :
    Progresses σ tree := .inl ⟨phrase, .here, tree, act, rfl, redex⟩

theorem Progresses.inside {whole part} (progresses : Progresses σ part) (slot : Slot hole whole)
    (rest : ∀ result, part.settled? = some result → Progresses σ (slot.plug part)) :
    Progresses σ (slot.plug part) := by
  obtain ⟨inner, route, node, act, rfl, redex⟩ | ⟨result, settled⟩ := progresses
  · exact .inl ⟨inner, .inside slot route, node, act, rfl, redex⟩
  · exact rest result settled

/-- If something is left to compute then there is a redex. -/
theorem Tree.progresses {tree : Tree phrase} (grouped : tree.Grouped) : Progresses σ tree := by
  induction tree with
  | value v => exact .inr ⟨v, rfl⟩
  | missing => exact .inr ⟨none, rfl⟩
  | paren inner ih =>
    exact (ih grouped).inside .paren fun _ settled => (Redex.paren settled).progresses
  | list items ih =>
    exact (ih grouped).inside .list fun _ settled => (Redex.list settled).progresses
  | object entries ih =>
    exact (ih grouped).inside .object fun _ settled => (Redex.object settled).progresses
  | index base key base_ih key_ih =>
    refine (base_ih grouped.1).inside (.indexBase key) fun _ base_settled => ?_
    refine (key_ih grouped.2).inside (.indexKey base) fun _ key_settled => ?_
    exact (Redex.index base_settled key_settled).progresses
  | slice base first last base_ih first_ih last_ih =>
    refine (base_ih grouped.1).inside (.sliceBase first last) fun _ base_settled => ?_
    refine (first_ih grouped.2.1).inside (.sliceFirst base last) fun _ first_settled => ?_
    refine (last_ih grouped.2.2).inside (.sliceLast base first) fun _ last_settled => ?_
    exact (Redex.slice base_settled first_settled last_settled).progresses
  | operand inner ih => exact (ih grouped).inside .operand fun v settled => .inr ⟨v, settled⟩
  | unary symbol isUnary inner ih =>
    exact (ih grouped.2).inside (.unary symbol isUnary) fun _ settled =>
      (Redex.unary settled).progresses
  | binary symbol precedence isBinary left right left_ih right_ih =>
    refine (left_ih grouped.2.2.1).inside (.binaryLeft symbol precedence isBinary right)
      fun _ left_settled => ?_
    refine (right_ih grouped.2.2.2).inside (.binaryRight symbol precedence isBinary left)
      fun _ right_settled => ?_
    exact (Redex.binary left_settled right_settled).progresses
  | item inner ih =>
    exact (ih grouped).inside .item fun v settled =>
      .inr ⟨some v, by simp [Slot.plug, Tree.settled?, settled]⟩
  | entry key content key_ih content_ih =>
    refine (key_ih grouped.1).inside (.entryKey content) fun k key_settled => ?_
    refine (content_ih grouped.2).inside (.entryContent key) fun c content_settled => ?_
    exact .inr ⟨some (k, c), by simp [Slot.plug, Tree.settled?, key_settled, content_settled]⟩
  | @lastPart element part ih =>
    exact (ih grouped).inside (.lastPart element) fun v settled =>
      .inr ⟨v.toList, by simp [Slot.plug, Tree.settled?, settled]⟩
  | moreParts part rest part_ih rest_ih =>
    refine (part_ih grouped.1).inside (.morePart rest) fun v part_settled => ?_
    refine (rest_ih grouped.2).inside (.moreRest part) fun vs rest_settled => ?_
    exact .inr ⟨v.toList ++ vs, by simp [Slot.plug, Tree.settled?, part_settled, rest_settled]⟩
  | call | apply | noArguments | arguments | lastArgument | moreArguments => exact grouped.elim

theorem Redex.exists_special {node : Tree phrase} (redex : Redex node act) :
    ∃ token ∈ node.tokens, token.isPlain = false := by
  cases redex with
  | paren => exact ⟨.op .leftParen, by simp [Tree.tokens], rfl⟩
  | list => exact ⟨.op .leftBracket, by simp [Tree.tokens], rfl⟩
  | object => exact ⟨.op .leftBrace, by simp [Tree.tokens], rfl⟩
  | index | slice => exact ⟨.op .leftBracket, by simp [Tree.tokens], rfl⟩
  | @unary symbol isUnary => exact ⟨.op symbol, by simp [Tree.tokens], isPlain_of_isUnary isUnary⟩
  | @binary symbol precedence isBinary =>
    exact ⟨.op symbol, by simp [Tree.tokens], isPlain_of_precedence? isBinary⟩

theorem settled_of_plain (tree : Tree phrase) (grouped : tree.Grouped)
    (plain : ∀ token ∈ tree.tokens, token.isPlain = true) :
    ∃ result, tree.settled? = some result := by
  refine (Tree.progresses (σ := Unit) grouped).resolve_left ?_
  rintro ⟨hole, route, node, act, rfl, redex⟩
  obtain ⟨token, mem, special⟩ := redex.exists_special
  rw [plain token (by simp [Route.tokens_plug, mem])] at special
  cases special

/-! ### Brackets -/

/-- Before every closing bracket there is a token that is not plain. -/
def Opens (tokens : List Token) : Prop :=
  ∀ before symbol after, tokens = before ++ .op symbol :: after → symbol.closes = true →
    ∃ token ∈ before, token.isPlain = false

theorem Tree.opens (tree : Tree phrase) (grouped : tree.Grouped) : Opens tree.tokens := by
  intro before symbol after split closes
  obtain ⟨hole, route, node, front, back, rfl, emits, rfl, rfl⟩ :=
    owned_of_tokens grouped before after split
  have inside {token : Token} (mem : token ∈ front) (special : token.isPlain = false) :
      ∃ token ∈ route.front ++ front, token.isPlain = false :=
    ⟨token, mem_append_right _ mem, special⟩
  cases emits with
  | parenClose | listClose | objectClose => exact inside mem_cons_self rfl
  | indexClose | sliceClose =>
    exact ⟨.op .leftBracket, by simp, rfl⟩
  | unary symbol isUnary => simp [Op.closes_of_isUnary isUnary] at closes
  | binary symbol precedence isBinary => simp [Op.closes_of_precedence? isBinary] at closes
  | parenOpen | listOpen | objectOpen | indexOpen | sliceOpen | sliceColon | entryColon | comma =>
    cases closes

theorem Opens.colon {first second} (first_opens : Opens first) (second_opens : Opens second) :
    Opens (first ++ .op .colon :: second) := by
  intro before symbol after split closes
  revert before after
  refine locate_append (fun xs ys split => first_opens xs symbol ys split closes)
    (locate_cons ?_ fun xs ys split => ?_)
  · rintro ⟨⟩
    cases closes
  · obtain ⟨token, mem, special⟩ := second_opens xs symbol ys split closes
    exact ⟨token, by simp [mem], special⟩

/-- Tokens up to a closing bracket are those before the first one, if these are plain. -/
theorem Opens.eq_of_plain {tokens inside} (opens : Opens tokens) (closes : symbol.closes = true)
    (plain : ∀ token ∈ inside, token.isPlain = true)
    (same : tokens ++ .op symbol :: rest = inside ++ .op symbol :: after) :
    tokens = inside ∧ rest = after := by
  obtain ⟨between, inside_eq, rest_eq⟩ | ⟨between, tokens_eq, rest_eq⟩ :=
    append_eq_append_iff.mp same
  · cases between with
    | nil => exact ⟨by simpa using inside_eq.symm, (List.cons.inj rest_eq).2⟩
    | cons token between =>
      obtain ⟨rfl, _⟩ := List.cons.inj rest_eq
      have bracket := plain (.op symbol) (by simp [inside_eq])
      simp [isPlain_of_closes closes] at bracket
  · cases between with
    | nil => exact ⟨by simpa using tokens_eq, (List.cons.inj rest_eq).2.symm⟩
    | cons token between =>
      obtain ⟨rfl, _⟩ := List.cons.inj rest_eq
      obtain ⟨token, mem, special⟩ := opens inside symbol between tokens_eq closes
      simp [plain token mem] at special

/-! ### Operands at the ends of an expression -/

theorem tokens_ne_nil (tree : Tree phrase) (is_value : phrase.IsValue) : tree.tokens ≠ [] := by
  intro empty
  have ends := startsOperand_tokens tree is_value []
  rw [empty] at ends
  cases ends

theorem operand_eq_of_last {tree : Tree .operand} (last : tree.tokens = xs ++ [.val a]) :
    xs = [] := by
  cases tree with
  | value => exact (append_inj_left' (Eq.trans (nil_append _) last) rfl).symm
  | paren | list | object | call | apply | index | slice =>
    rw [Tree.tokens] at last
    cases append_inj_right' last rfl

/-- If an expression ends in a value, it is that value or the operator before it binds tighter than
whatever could follow. -/
theorem leftIsFree_of_last (tree : Tree phrase) (is_value : phrase.IsValue) (grouped : tree.Grouped)
    (starts : startsOperand before = true) (last : tree.tokens = xs ++ [.val a]) :
    xs = [] ∨ ∀ precedence, precedence ≤ tree.level →
      leftIsFree precedence (xs.reverse ++ before) = false := by
  induction tree generalizing before xs with
  | value | paren | list | object | call | apply | index | slice =>
    exact .inl (operand_eq_of_last last)
  | operand => exact .inl (operand_eq_of_last last)
  | unary symbol isUnary inner ih =>
    right
    intro precedence le
    cases xs with
    | nil => cases (List.cons.inj last).1
    | cons head xs =>
      obtain ⟨rfl, inner_last⟩ := List.cons.inj last
      have inner_starts : startsOperand (.op symbol :: before) = true := by
        simp [startsOperand, Op.closes_of_isUnary isUnary]
      obtain rfl | taken := ih trivial grouped.2 inner_starts inner_last
      · simp [leftIsFree, isUnary, starts]
      · simpa using taken precedence (le.trans grouped.1)
  | binary symbol precedence isBinary left right _ ih =>
    right
    intro other le
    obtain ⟨_, right_tight, _, right_grouped⟩ := grouped
    have right_starts : startsOperand (.op symbol :: (left.tokens.reverse ++ before)) = true := by
      simp [startsOperand, Op.closes_of_precedence? isBinary]
    obtain ⟨front, rfl, right_last⟩ : ∃ front, xs = left.tokens ++ .op symbol :: front ∧
        right.tokens = front ++ [.val a] := by
      obtain empty | ⟨front, final, right_eq⟩ := eq_nil_or_concat right.tokens
      · exact absurd empty (tokens_ne_nil right trivial)
      · rw [Tree.tokens, right_eq, concat_eq_append, ← cons_append, ← append_assoc] at last
        obtain ⟨rfl, same⟩ := append_inj' last rfl
        exact ⟨front, rfl, by rw [right_eq, concat_eq_append, same]⟩
    obtain rfl | taken := ih trivial right_grouped right_starts right_last
    · simp [leftIsFree, isBinary, show other ≤ precedence from le]
    · simpa using taken other (le.trans right_tight.le)
  | missing | item | entry | lastPart | moreParts | noArguments | arguments | lastArgument
  | moreArguments => exact is_value.elim

/-- If an expression starts with a value, it is that value or the operator after it binds at least
as tight as the expression. -/
theorem head_cases (tree : Tree phrase) (is_value : phrase.IsValue) (grouped : tree.Grouped)
    (head : tree.tokens = .val v :: rest) :
    rest = [] ∨ ∃ symbol more, rest = .op symbol :: more ∧
      (symbol.continues = true ∨ ∃ precedence, symbol.precedence? = some precedence ∧
        tree.level ≤ precedence) := by
  have starting {first second rest : List Token} (first_ne : first ≠ [])
      (same : first ++ second = .val v :: rest) :
      ∃ more, first = .val v :: more ∧ rest = more ++ second := by
    cases first with
    | nil => exact absurd rfl first_ne
    | cons token more =>
      obtain ⟨rfl, rfl⟩ := List.cons.inj same
      exact ⟨more, rfl, rfl⟩
  induction tree generalizing rest with
  | value =>
    obtain ⟨_, rfl⟩ := List.cons.inj head
    exact .inl rfl
  | paren | list | object | unary => cases (List.cons.inj head).1
  | index base _ base_ih | slice base _ _ base_ih =>
    simp only [Tree.tokens, append_assoc] at head
    obtain ⟨more, base_head, rfl⟩ := starting (tokens_ne_nil base trivial) head
    obtain rfl | ⟨symbol, others, rfl, binds⟩ := base_ih trivial grouped.1 base_head
    · exact .inr ⟨.leftBracket, _, rfl, .inl rfl⟩
    · exact .inr ⟨symbol, _, rfl, by rwa [base.operand_level] at binds⟩
  | operand inner ih =>
    have inner_head := ih trivial grouped head
    rwa [inner.operand_level] at inner_head
  | binary symbol precedence isBinary left right left_ih =>
    obtain ⟨more, left_head, rfl⟩ := starting (tokens_ne_nil left trivial) head
    obtain rfl | ⟨other, others, rfl, binds⟩ :=
      left_ih trivial grouped.2.2.1 left_head
    · exact .inr ⟨symbol, _, rfl, .inr ⟨precedence, isBinary, le_rfl⟩⟩
    · refine .inr ⟨other, _, rfl, binds.imp_right ?_⟩
      rintro ⟨tighter, is_binary, le⟩
      exact ⟨tighter, is_binary, grouped.1.trans le⟩
  | call | apply => exact grouped.elim
  | missing | item | entry | lastPart | moreParts | noArguments | arguments | lastArgument
  | moreArguments => exact is_value.elim

/-! ### Where the rules apply -/

/-- A tree has a redex between these tokens. -/
def Located (tree : Tree .expression) (act : Run σ Value) (before after : List Token) : Prop :=
  ∃ (hole : Phrase) (route : Route hole .expression) (node : Tree hole),
    route.plug node = tree ∧ Redex node act ∧ route.front = before.reverse ∧ route.back = after

theorem settled_of_tokens (grouped : tree.Grouped) (tokens_eq : tree.tokens = [.val v]) :
    tree.settled? = some v := by
  obtain ⟨w, settled⟩ := settled_of_plain tree grouped (by simp [tokens_eq, Token.isPlain])
  rw [tokens_of_settled settled] at tokens_eq
  cases tokens_eq
  exact settled

theorem settled_of_tokens_operand {tree : Tree .operand} (grouped : tree.Grouped)
    (tokens_eq : tree.tokens = [.val v]) : tree.settled? = some v :=
  @settled_of_tokens v (.operand tree) grouped tokens_eq

theorem isPlain_of_divided {tokens} (divided : Divided element.form tokens) :
    ∀ token ∈ tokens, token.isPlain = true := by
  have of_part {part : List Token} (part_ok : part = [] ∨ element.form part) :
      ∀ token ∈ part, token.isPlain = true := by
    obtain rfl | formed := part_ok
    · simp
    · cases element with
      | item =>
        obtain ⟨v, rfl⟩ := formed
        simp [Token.isPlain]
      | entry =>
        obtain ⟨k, v, rfl⟩ := formed
        simp [Token.isPlain]
  induction divided with
  | last part_ok => exact of_part part_ok
  | more part_ok _ ih =>
    rw [forall_mem_append, forall_mem_cons]
    exact ⟨of_part part_ok, rfl, ih⟩

section Around

variable {route : Route hole .expression} {node : Tree hole}

/-- A node never stands right after a value. -/
theorem Route.front_ne_val (grouped : (route.plug node).Grouped)
    (front_eq : route.front = before ++ [.val a]) : False := by
  have starts := (Route.free Free.root (Nat.zero_le _) grouped).1.starts
  rw [front_eq, reverse_append] at starts
  cases starts

theorem not_starts_of_operand {front} (part : Tree phrase) (is_value : phrase.IsValue)
    (starts : startsOperand before = true) (before_eq : before.reverse = front ++ part.tokens) :
    False := by
  have ends := startsOperand_tokens part is_value front.reverse
  rw [← reverse_append, ← before_eq, reverse_reverse, starts] at ends
  cases ends

end Around

/-- The contents of a literal are values if its tokens up to the bracket are read as such. -/
theorem settled_of_literal {contents : Tree (.parts element)} (grouped : contents.Grouped) {close}
    (closes : close.closes = true) {inside values} (divided : Divided element.form inside)
    (all : (parts inside).mapM element.read? = some values)
    (same : inside ++ .op close :: after = contents.tokens ++ [.op close] ++ back) :
    contents.settled? = some values ∧ back = after := by
  have plain := isPlain_of_divided divided
  rw [append_assoc, singleton_append] at same
  obtain ⟨tokens_eq, back_eq⟩ := (contents.opens grouped).eq_of_plain closes plain same.symm
  obtain ⟨results, settled⟩ := settled_of_plain contents grouped (tokens_eq ▸ plain)
  have read := (read_of_settled contents settled).1
  rw [tokens_eq, all] at read
  exact ⟨settled.trans read.symm, back_eq⟩

section Located

variable {tree : Tree .expression} (grouped : tree.Grouped)
include grouped

theorem list_located {inside values} (starts : startsOperand before = true)
    (found : splitAt? .rightBracket rest = some (inside, after))
    (all : (parts inside).mapM item? = some values)
    (split : tree.tokens = before.reverse ++ .op .leftBracket :: rest) :
    Located tree (Run.onHeap (Mem.newList values) : Run σ Value) before after := by
  obtain ⟨hole, route, node, front, back, rfl, emits, before_eq, rest_eq⟩ :=
    owned_of_tokens grouped _ _ split
  have node_grouped := Route.grouped_node grouped
  rw [splitAt?_eq found] at rest_eq
  cases emits with
  | listOpen items =>
    obtain ⟨settled, back_eq⟩ :=
      settled_of_literal node_grouped rfl (divided_of_items all) all rest_eq
    exact ⟨_, route, _, rfl, .list settled, by simpa using before_eq.symm, back_eq⟩
  | indexOpen base | sliceOpen base =>
    exact (not_starts_of_operand base trivial starts before_eq).elim
  | unary _ isUnary => cases isUnary
  | binary _ _ isBinary => cases isBinary

theorem object_located {inside values} (found : splitAt? .rightBrace rest = some (inside, after))
    (all : (parts inside).mapM entry? = some values)
    (split : tree.tokens = before.reverse ++ .op .leftBrace :: rest) :
    Located tree (makeObject values : Run σ Value) before after := by
  obtain ⟨hole, route, node, front, back, rfl, emits, before_eq, rest_eq⟩ :=
    owned_of_tokens grouped _ _ split
  have node_grouped := Route.grouped_node grouped
  rw [splitAt?_eq found] at rest_eq
  cases emits with
  | objectOpen entries =>
    obtain ⟨settled, back_eq⟩ :=
      settled_of_literal node_grouped rfl (divided_of_entries all) all rest_eq
    exact ⟨_, route, _, rfl, .object settled, by simpa using before_eq.symm, back_eq⟩
  | unary _ isUnary => cases isUnary
  | binary _ _ isBinary => cases isBinary

theorem paren_located
    (split : tree.tokens =
      before.reverse ++ .op .leftParen :: .val v :: .op .rightParen :: after) :
    Located tree (pure v : Run σ Value) before after := by
  obtain ⟨hole, route, node, front, back, rfl, emits, before_eq, rest_eq⟩ :=
    owned_of_tokens grouped _ _ split
  have node_grouped := Route.grouped_node grouped
  cases emits with
  | parenOpen inner =>
    have inner_grouped : inner.Grouped := node_grouped
    have close : Op.rightParen.closes = true := rfl
    have plain : ∀ token ∈ [Token.val v], token.isPlain = true := by simp [Token.isPlain]
    rw [append_assoc, singleton_append] at rest_eq
    obtain ⟨tokens_eq, back_eq⟩ :=
      (inner.opens inner_grouped).eq_of_plain close plain rest_eq.symm
    have settled := settled_of_tokens inner_grouped tokens_eq
    exact ⟨_, route, _, rfl, .paren settled, by simpa using before_eq.symm, back_eq⟩
  | unary _ isUnary => cases isUnary
  | binary _ _ isBinary => cases isBinary

end Located

/-! ### Indexing -/

theorem boundTokens_eq (bound : Option Value) :
    boundTokens bound = (bound.map Element.item.tokens).getD [] := by
  cases bound <;> rfl

/-- The tokens of a subscript: a key or two bounds, each of which may be missing. -/
def subscriptTokens : Value ⊕ (Option Value × Option Value) → List Token
  | .inl key => [.val key]
  | .inr (first, last) =>
    (first.map Element.item.tokens).getD [] ++
      .op .colon :: (last.map Element.item.tokens).getD []

theorem isPlain_subscriptTokens (subscript : Value ⊕ (Option Value × Option Value)) :
    ∀ token ∈ subscriptTokens subscript, token.isPlain = true := by
  rcases subscript with key | ⟨_ | first, _ | last⟩ <;>
    simp [subscriptTokens, Element.tokens, Token.isPlain]

theorem subscriptTokens_injective : Function.Injective subscriptTokens := by
  rintro (key | ⟨_ | first, _ | last⟩) (key | ⟨_ | first, _ | last⟩) same <;>
    simp_all [subscriptTokens, Element.tokens]

def applySubscript (base : Value) : Value ⊕ (Option Value × Option Value) → Run σ Value
  | .inl key => Run.onHeap (Mem.index base key)
  | .inr (first, last) => Run.onHeap (Mem.slice base (first.getD .nil) (last.getD .nil))

theorem exists_front {ys zs token} (same : xs ++ [token] = ys ++ zs) (zs_ne : zs ≠ []) :
    ∃ front, zs = front ++ [token] ∧ xs = ys ++ front := by
  obtain rfl | ⟨front, last, rfl⟩ := eq_nil_or_concat zs
  · exact absurd rfl zs_ne
  · rw [concat_eq_append, ← append_assoc] at same
    obtain ⟨rfl, ⟨⟩⟩ := append_inj' same rfl
    exact ⟨front, concat_eq_append, rfl⟩

theorem subscript_located (grouped : tree.Grouped) {base}
    (subscript : Value ⊕ (Option Value × Option Value))
    (split : tree.tokens = before.reverse ++ .val base :: .op .leftBracket ::
      (subscriptTokens subscript ++ .op .rightBracket :: after)) :
    Located tree (applySubscript base subscript : Run σ Value) before after := by
  obtain ⟨hole, route, node, front, back, rfl, emits, before_eq, rest_eq⟩ :=
    owned_of_tokens grouped (before.reverse ++ [.val base]) _ (by simpa using split)
  have node_grouped := Route.grouped_node grouped
  have plain := isPlain_subscriptTokens subscript
  have close : Op.rightBracket.closes = true := rfl
  have settled_base {tree : Tree .operand} (tree_grouped : tree.Grouped)
      (same : before.reverse ++ [.val base] = route.front ++ tree.tokens) :
      tree.settled? = some base ∧ route.front = before.reverse := by
    obtain ⟨front, last, front_eq⟩ := exists_front same (tokens_ne_nil tree trivial)
    obtain rfl := operand_eq_of_last last
    exact ⟨settled_of_tokens_operand tree_grouped last, by simpa using front_eq.symm⟩
  cases emits with
  | listOpen => exact (Route.front_ne_val grouped (by simpa using before_eq.symm)).elim
  | indexOpen base_tree key =>
    obtain ⟨base_settled, front_eq⟩ := settled_base node_grouped.1 before_eq
    rw [append_assoc, singleton_append] at rest_eq
    obtain ⟨tokens_eq, back_eq⟩ :=
      (key.opens node_grouped.2).eq_of_plain close plain rest_eq.symm
    obtain ⟨k, key_settled⟩ := settled_of_plain key node_grouped.2 (tokens_eq ▸ plain)
    obtain rfl : subscript = .inl k :=
      subscriptTokens_injective (tokens_eq.symm.trans (tokens_of_settled key_settled))
    exact ⟨_, route, _, rfl, .index base_settled key_settled, front_eq, back_eq⟩
  | sliceOpen base_tree first last =>
    obtain ⟨base_grouped, first_grouped, last_grouped⟩ := node_grouped
    obtain ⟨base_settled, front_eq⟩ := settled_base base_grouped before_eq
    rw [append_assoc _ [_], singleton_append] at rest_eq
    obtain ⟨tokens_eq, back_eq⟩ :=
      ((first.opens first_grouped).colon (last.opens last_grouped)).eq_of_plain close plain
        rest_eq.symm
    rw [← tokens_eq, forall_mem_append, forall_mem_cons] at plain
    obtain ⟨b, first_settled⟩ := settled_of_plain first first_grouped plain.1
    obtain ⟨c, last_settled⟩ := settled_of_plain last last_grouped plain.2.2
    rw [tokens_of_settled_part first_settled, tokens_of_settled_part last_settled] at tokens_eq
    obtain rfl : subscript = .inr (b, c) := subscriptTokens_injective tokens_eq.symm
    exact ⟨_, route, _, rfl, .slice base_settled first_settled last_settled, front_eq, back_eq⟩
  | unary _ isUnary => cases isUnary
  | binary _ _ isBinary => cases isBinary

/-! ### Operators -/

theorem precedence_le_four (isBinary : symbol.precedence? = some precedence) : precedence ≤ 4 := by
  cases symbol <;> cases isBinary <;> decide

/-- An expression that starts with a value which no tighter operator takes is that value. -/
theorem settled_of_head (grouped : tree.Grouped) (same : .val v :: after = tree.tokens ++ back)
    (ends : continuesOperand after = false)
    (free : ∀ symbol more precedence, after = .op symbol :: more →
      symbol.precedence? = some precedence → precedence < tree.level) :
    tree.settled? = some v ∧ back = after := by
  rcases tokens_eq : tree.tokens with _ | ⟨token, more⟩
  · exact absurd tokens_eq (tokens_ne_nil tree trivial)
  · rw [tokens_eq, cons_append] at same
    obtain ⟨rfl, rfl⟩ := List.cons.inj same
    obtain rfl | ⟨symbol, others, rfl, continues | ⟨precedence, isBinary, le⟩⟩ :=
      head_cases tree trivial grouped tokens_eq
    · exact ⟨settled_of_tokens grouped tokens_eq, rfl⟩
    · simp [continuesOperand, continues] at ends
    · exact absurd (free symbol _ precedence rfl isBinary) (Nat.not_lt.mpr le)

theorem binary_located (grouped : tree.Grouped) {b}
    (isBinary : symbol.precedence? = some precedence)
    (left_free : leftIsFree precedence before = true)
    (right_free : rightIsFree precedence after = true)
    (split : tree.tokens = before.reverse ++ .val a :: .op symbol :: .val b :: after) :
    Located tree (applyBinary symbol a b : Run σ Value) before after := by
  obtain ⟨hole, route, node, front, back, rfl, emits, before_eq, rest_eq⟩ :=
    owned_of_tokens grouped (before.reverse ++ [.val a]) _ (by simpa using split)
  have node_grouped := Route.grouped_node grouped
  have starts := (Route.free Free.root (Nat.zero_le _) grouped).1.starts
  cases emits with
  | binary _ _ same_binary left right =>
    obtain rfl : precedence = _ := Option.some.inj (isBinary.symm.trans same_binary)
    obtain ⟨left_tight, right_tight, left_grouped, right_grouped⟩ := node_grouped
    obtain ⟨front, last, front_eq⟩ := exists_front before_eq (tokens_ne_nil left trivial)
    obtain rfl | taken := leftIsFree_of_last left trivial left_grouped starts last
    · have left_settled := settled_of_tokens left_grouped last
      have looser (other : Op) (more : List Token) (tighter : Nat)
          (after_eq : after = .op other :: more) (binary : other.precedence? = some tighter) :
          tighter < right.level := by
        rw [after_eq] at right_free
        simp only [rightIsFree, binary, any_some, Bool.and_eq_true,
          Bool.not_eq_true', decide_eq_false_iff_not] at right_free
        omega
      obtain ⟨right_settled, back_eq⟩ := settled_of_head right_grouped rest_eq
        (continuesOperand_of_rightIsFree right_free) looser
      exact ⟨_, route, _, rfl, .binary left_settled right_settled,
        by simpa using front_eq.symm, back_eq⟩
    · have not_free := taken precedence left_tight
      rw [append_nil, ← reverse_append, ← front_eq, reverse_reverse, left_free] at not_free
      cases not_free
  | unary => exact (Route.front_ne_val grouped (by simpa using before_eq.symm)).elim
  | _ => cases isBinary

theorem unary_located (grouped : tree.Grouped) {operand} (isUnary : symbol.isUnary = true)
    (starts : startsOperand before = true) (ends : continuesOperand after = false)
    (split : tree.tokens = before.reverse ++ .op symbol :: .val operand :: after) :
    Located tree (applyUnary symbol operand : Run σ Value) before after := by
  obtain ⟨hole, route, node, front, back, rfl, emits, before_eq, rest_eq⟩ :=
    owned_of_tokens grouped _ _ split
  have node_grouped := Route.grouped_node grouped
  cases emits with
  | unary _ _ inner =>
    obtain ⟨settled, back_eq⟩ := settled_of_head node_grouped.2 rest_eq ends
      fun other more tighter after_eq binary =>
        (Nat.lt_succ_of_le (precedence_le_four binary)).trans_le node_grouped.1
    exact ⟨_, route, _, rfl, .unary settled, by simpa using before_eq.symm, back_eq⟩
  | binary _ _ _ left => exact (not_starts_of_operand left trivial starts before_eq).elim
  | _ => cases isUnary

/-! ### Calls -/

theorem Tree.call_not_mem {tree : Tree phrase} (grouped : tree.Grouped) (name : String) :
    .call name ∉ tree.tokens := by
  induction tree with
  | value | missing => simp [Tree.tokens]
  | paren _ ih | list _ ih | object _ ih => simpa [Tree.tokens] using ih grouped
  | operand _ ih | item _ ih | lastPart _ ih => exact ih grouped
  | unary _ _ _ ih => simpa [Tree.tokens] using ih grouped.2
  | index _ _ base_ih key_ih | entry _ _ base_ih key_ih | moreParts _ _ base_ih key_ih =>
    simpa [Tree.tokens] using And.intro (base_ih grouped.1) (key_ih grouped.2)
  | slice _ _ _ base_ih first_ih last_ih =>
    simpa [Tree.tokens] using
      And.intro (base_ih grouped.1) (And.intro (first_ih grouped.2.1) (last_ih grouped.2.2))
  | binary _ _ _ _ _ left_ih right_ih =>
    simpa [Tree.tokens] using And.intro (left_ih grouped.2.2.1) (right_ih grouped.2.2.2)
  | call | apply | noArguments | arguments | lastArgument | moreArguments => exact grouped.elim

/-- A value in a tree is never followed by arguments. -/
theorem apply_not_located (grouped : tree.Grouped)
    (split : tree.tokens = before.reverse ++ .val v :: .op .leftParen :: rest) : False := by
  obtain ⟨hole, route, node, front, back, rfl, emits, before_eq, _⟩ :=
    owned_of_tokens grouped (before.reverse ++ [.val v]) _ (by simpa using split)
  cases emits with
  | parenOpen => exact (Route.front_ne_val grouped (by simpa using before_eq.symm)).elim
  | unary _ isUnary => cases isUnary
  | binary _ _ isBinary => cases isBinary

/-- Where the tokens of a tree are contracted, a redex is replaced. -/
theorem Contraction.located (engine : Engine σ) (grouped : tree.Grouped) {tokens action}
    (contraction : Contraction before tokens action after)
    (split : tree.tokens = before.reverse ++ tokens) :
    Located tree (action.perform engine) before after := by
  cases contraction with
  | call name => exact (Tree.call_not_mem grouped name (by simp [split])).elim
  | apply => exact (apply_not_located grouped split).elim
  | list starts found all => exact list_located grouped starts found all split
  | object _ found all => exact object_located grouped found all split
  | index base key => exact subscript_located grouped (.inl key) split
  | slice base first last =>
    rw [boundTokens_eq, boundTokens_eq] at split
    exact subscript_located grouped (.inr (first, last)) (by simpa [subscriptTokens] using split)
  | group => exact paren_located grouped split
  | unary isUnary starts operand ends => exact unary_located grouped isUnary starts ends split
  | binary isBinary left_free a b right_free =>
    exact binary_located grouped isBinary left_free right_free split

/-! ### Every redex is found -/

theorem splitAt?_of_plain (closes : symbol.closes = true) {inside}
    (plain : ∀ token ∈ inside, token.isPlain = true) (after : List Token) :
    splitAt? symbol (inside ++ .op symbol :: after) = some (inside, after) := by
  induction inside with
  | nil => simp [splitAt?, Token.isOp, Token.op?]
  | cons token inside ih =>
    obtain ⟨token_plain, rest_plain⟩ := forall_mem_cons.mp plain
    have other : token.isOp symbol = false := by
      cases token with
      | op found =>
        refine beq_eq_false_iff_ne.mpr fun same => ?_
        cases same
        simp [isPlain_of_closes closes] at token_plain
      | val | var | call => rfl
    simp [splitAt?, other, ih rest_plain]

/-- The rules that sweep over the tokens, calls apart. -/
def sweptRules : List (Rule σ) :=
  [listRule, indexRule, objectRule, parenRule, binaryRule 4, binaryRule 3, binaryRule 2,
    binaryRule 1]

/-- Nothing is left to do for the rules of a cycle. -/
structure Idle (σ : Type) (tokens : List Token) : Prop where
  swept (before after : List Token) (split : tokens = before.reverse ++ after) (ne : after ≠ []) :
    ∀ rule ∈ (sweptRules : List (Rule σ)), rule before after = pure none
  unary (before after : List Token) (symbol : Op) (operand : Value)
    (split : tokens = before.reverse ++ .op symbol :: .val operand :: after)
    (isUnary : symbol.isUnary = true) (starts : startsOperand before = true) :
    continuesOperand after = true

theorem Redex.two_le_length {node : Tree phrase} (redex : Redex node act) :
    2 ≤ node.tokens.length := by
  cases redex with
  | paren | list | object => simp [Tree.tokens]
  | index | slice => simp [Tree.tokens]; omega
  | unary settled => simp [Tree.tokens, tokens_of_settled settled]
  | binary left_settled => simp [Tree.tokens, tokens_of_settled left_settled]

theorem HasRedex.two_le_length {tree : Tree phrase} (has : HasRedex σ tree) :
    2 ≤ tree.tokens.length := by
  obtain ⟨hole, route, node, act, rfl, redex⟩ := has
  have two := redex.two_le_length
  rw [Route.tokens_plug, length_append, length_append]
  omega

/-- A rule of the cycle applies to every redex. -/
theorem Idle.not_hasRedex (grouped : tree.Grouped) (idle : Idle σ tree.tokens)
    (session : Session σ) :
    ¬HasRedex σ tree := by
  rintro ⟨hole, route, node, act, rfl, redex⟩
  obtain ⟨free, tight⟩ := Route.free Free.root (Nat.zero_le _) grouped
  rw [append_nil, append_nil] at free
  have split : (route.plug node).tokens =
      route.front.reverse.reverse ++ (node.tokens ++ route.back) := by
    simp [Route.tokens_plug]
  have applied (rule : Rule σ) (mem : rule ∈ (sweptRules : List (Rule σ)))
      (applies : rule route.front.reverse (node.tokens ++ route.back) =
        (do return some (← act, route.back))) : False := by
    have ne : node.tokens ++ route.back ≠ [] := by
      intro empty
      have two := redex.two_le_length
      simp [(append_eq_nil_iff.mp empty).1] at two
    have idle_here := congrFun (idle.swept _ _ split ne rule mem) session
    rw [applies] at idle_here
    cases ended : act session with
    | ok value after => rw [Run.bind_ok ended] at idle_here; cases idle_here
    | error stop after => rw [Run.bind_error ended] at idle_here; cases idle_here
  cases redex with
  | paren settled =>
    refine applied parenRule (by simp [sweptRules]) ?_
    simp [parenRule, Tree.tokens, tokens_of_settled settled, free.starts]
  | list settled =>
    refine applied listRule (by simp [sweptRules]) ?_
    have close : Op.rightBracket.closes = true := rfl
    obtain ⟨read, plain⟩ := read_of_settled _ settled
    have found := splitAt?_of_plain close plain route.back
    simp only [Element.read?] at read
    simp [listRule, Tree.tokens, free.starts, found, read]
  | object settled =>
    refine applied objectRule (by simp [sweptRules]) ?_
    have close : Op.rightBrace.closes = true := rfl
    obtain ⟨read, plain⟩ := read_of_settled _ settled
    have found := splitAt?_of_plain close plain route.back
    simp only [Element.read?] at read
    simp [objectRule, Tree.tokens, free.starts, found, read, makeObject]
  | index base_settled key_settled =>
    refine applied indexRule (by simp [sweptRules]) ?_
    simp [indexRule, Tree.tokens, tokens_of_settled_operand base_settled,
      tokens_of_settled key_settled, subscript?]
  | @slice _ _ _ a b c base_settled first_settled last_settled =>
    refine applied indexRule (by simp [sweptRules]) ?_
    rcases b with _ | b <;> rcases c with _ | c <;>
      simp [indexRule, Tree.tokens, tokens_of_settled_operand base_settled,
        tokens_of_settled_part first_settled, tokens_of_settled_part last_settled, subscript?,
        optionalValue, Element.tokens]
  | @unary symbol isUnary inner a settled =>
    have continues := idle.unary route.front.reverse route.back symbol a
      (by simp [split, Tree.tokens, tokens_of_settled settled]) isUnary free.starts
    rw [free.ends tight] at continues
    cases continues
  | @binary symbol precedence isBinary left right a b left_settled right_settled =>
    have bound := precedence_le_four isBinary
    have mem : binaryRule precedence ∈ (sweptRules : List (Rule σ)) := by
      cases symbol <;> cases isBinary <;> simp [sweptRules]
    refine applied _ mem ?_
    simp [binaryRule, Tree.tokens, tokens_of_settled left_settled,
      tokens_of_settled right_settled, isBinary, free.left precedence tight bound,
      free.right precedence tight bound]

end Vimlet
