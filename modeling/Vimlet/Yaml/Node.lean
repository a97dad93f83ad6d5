import Vimlet.Yaml.Token

/-!
# Nodes of YAML

The tree that the tokens of a text describe.
-/

namespace Vimlet

namespace Yaml

/-- A node of the tree that a text is parsed into. -/
inductive Node where
  | scalar (tag : Option String) (plain : Bool) (text : String)
  | sequence (tag : Option String) (items : List Node)
  | mapping (tag : Option String) (entries : List (Node × Node))
deriving Repr

namespace Node

/-- The node that stands where none is written. -/
def empty : Node := .scalar none true ""

/-- An entry between brackets, where a key with its value is a mapping of its own. -/
def single : Node × Option Node → Node
  | (key, some value) => .mapping none [(key, value)]
  | (item, none) => item

/-- Refuses tokens, unless the first one stands for a text that cannot be read. -/
def refuse {α : Type} (tokens : List Token) : Except Stop α :=
  if tokens.head? == some .unreadable then throw .internal else throw refusal

/-- The tags whose handle is known. -/
def isKnownTag (name : String) : Bool :=
  match name.toList with
  | '!' :: '!' :: _ => true
  | '!' :: rest => !rest.contains '!'
  | _ => false

/-- The first token is one of these, or there is none. -/
def stopsAt (stops : List Token) (tokens : List Token) : Bool :=
  match tokens with
  | [] => true
  | token :: _ => stops.contains token

/-- Where an entry of a sequence without indentation of its own ends. -/
def indentlessStops : List Token := [.blockEntry, .key, .value, .blockEnd]

/-- Where a key or a value of a block mapping ends. -/
def mappingStops : List Token := [.key, .value, .blockEnd]

mutual

/-- Reads a node. Blocks may start only where `block` holds, and sequences not indented only where
`indentless` does. -/
def read : Nat → Bool → Bool → Option String → List Token → Except Stop (Node × List Token)
  | 0, _, _, _, _ => throw refusal
  | fuel + 1, block, indentless, tag, tokens =>
    match tokens with
    | .tag name :: rest =>
      if tag.isSome || !isKnownTag name then throw refusal
      else read fuel block indentless (some name) rest
    | .blockEntry :: _ =>
      if indentless then do
        let (items, rest) ← blockItems indentlessStops fuel tokens
        return (.sequence tag items, rest)
      else orEmpty tag tokens
    | .scalar plain text :: rest => return (.scalar tag plain text, rest)
    | .flowSequenceStart :: rest => do
      let (entries, rest) ← flowEntries .flowSequenceEnd fuel true rest
      return (.sequence tag (entries.map single), rest)
    | .flowMappingStart :: rest => do
      let (entries, rest) ← flowEntries .flowMappingEnd fuel true rest
      return (.mapping tag (entries.map fun (key, value) => (key, value.getD empty)), rest)
    | .blockSequenceStart :: rest =>
      if block then do
        match ← blockItems [.blockEntry, .blockEnd] fuel rest with
        | (items, .blockEnd :: rest) => return (.sequence tag items, rest)
        | (_, rest) => refuse rest
      else orEmpty tag tokens
    | .blockMappingStart :: rest =>
      if block then do
        let (entries, rest) ← blockEntries fuel rest
        return (.mapping tag entries, rest)
      else orEmpty tag tokens
    | _ => orEmpty tag tokens

/-- After a tag there may be nothing. -/
def orEmpty (tag : Option String) (tokens : List Token) : Except Stop (Node × List Token) :=
  if tag.isSome then return (.scalar tag true "", tokens) else refuse tokens

/-- Reads the items of a block sequence, each up to one of some tokens. -/
def blockItems (stops : List Token) : Nat → List Token → Except Stop (List Node × List Token)
  | 0, _ => throw refusal
  | fuel + 1, tokens => do
    match tokens with
    | .blockEntry :: rest =>
      let (item, rest) ←
        if stopsAt stops rest then pure (empty, rest) else read fuel true false none rest
      let (items, rest) ← blockItems stops fuel rest
      return (item :: items, rest)
    | _ => return ([], tokens)

/-- Reads what stands after a key or a colon of a block mapping. -/
def blockPart (fuel : Nat) (tokens : List Token) : Except Stop (Node × List Token) :=
  match fuel with
  | 0 => throw refusal
  | fuel + 1 =>
    if stopsAt mappingStops tokens then return (empty, tokens)
    else read fuel true true none tokens

/-- Reads the entries of a block mapping and its end. -/
def blockEntries : Nat → List Token → Except Stop (List (Node × Node) × List Token)
  | 0, _ => throw refusal
  | fuel + 1, tokens => do
    match tokens with
    | .blockEnd :: rest => return ([], rest)
    | .key :: rest =>
      let (key, rest) ← blockPart fuel rest
      blockValue fuel key rest
    | tokens => refuse tokens

/-- Reads the value of a key of a block mapping, and the entries after it. -/
def blockValue (fuel : Nat) (key : Node) (tokens : List Token) :
    Except Stop (List (Node × Node) × List Token) := do
  match fuel with
  | 0 => throw refusal
  | fuel + 1 =>
    let (value, rest) ← match tokens with
      | .value :: rest => blockPart fuel rest
      | tokens => pure (empty, tokens)
    let (entries, rest) ← blockEntries fuel rest
    return ((key, value) :: entries, rest)

/-- Reads what stands between brackets or braces: nodes by themselves, and keys with their values. -/
def flowEntries (close : Token) :
    Nat → Bool → List Token → Except Stop (List (Node × Option Node) × List Token)
  | 0, _, _ => throw refusal
  | fuel + 1, first, tokens => do
    if tokens.head? == some close then return ([], tokens.tail)
    let tokens ← afterComma first tokens
    if tokens.head? == some close then return ([], tokens.tail)
    let (entry, rest) ← match tokens with
      | .key :: rest => do
        let (key, rest) ← flowPart fuel [.value, .flowEntry, close] rest
        let (value, rest) ← flowValue fuel [.flowEntry, close] rest
        pure ((key, some value), rest)
      | tokens => do
        let (node, rest) ← read fuel false false none tokens
        pure ((node, none), rest)
    let (entries, rest) ← flowEntries close fuel false rest
    return (entry :: entries, rest)

/-- Skips the comma that stands before every entry but the first. -/
def afterComma (first : Bool) (tokens : List Token) : Except Stop (List Token) :=
  match first, tokens with
  | true, tokens => return tokens
  | false, .flowEntry :: rest => return rest
  | false, tokens => refuse tokens

/-- Reads what stands before one of some tokens. -/
def flowPart (fuel : Nat) (stops : List Token) (tokens : List Token) :
    Except Stop (Node × List Token) :=
  match fuel with
  | 0 => throw refusal
  | fuel + 1 =>
    if stopsAt stops tokens then return (empty, tokens) else read fuel false false none tokens

/-- Reads a colon and a value, if there is one. -/
def flowValue (fuel : Nat) (stops : List Token) (tokens : List Token) :
    Except Stop (Node × List Token) :=
  match fuel, tokens with
  | 0, _ => throw refusal
  | fuel + 1, .value :: rest => flowPart fuel stops rest
  | _ + 1, tokens => return (empty, tokens)

end

/-- Skips the ends of documents, after which nothing may follow. -/
def checkEnd : List Token → Except Stop Unit
  | [] => return
  | .documentEnd :: rest => checkEnd rest
  | tokens => refuse tokens

/-- The node of the only document of a text, if it has one. -/
def ofTokens? (tokens : List Token) : Except Stop (Option Node) := do
  let fuel := 4 * tokens.length + 4
  match tokens with
  | [] => return none
  | .documentStart :: rest =>
    let (node, rest) ←
      if stopsAt [.documentStart, .documentEnd] rest then pure (empty, rest)
      else read fuel true false none rest
    checkEnd rest
    return some node
  | tokens =>
    let (node, rest) ← read fuel true false none tokens
    checkEnd rest
    return some node

end Node

end Yaml

end Vimlet
