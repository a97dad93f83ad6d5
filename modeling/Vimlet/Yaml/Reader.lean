import Vimlet.Yaml.Node
import Vimlet.Yaml.Scalar

/-!
# Reading YAML

The data of a text. Keys of mappings become texts; keys that are the same number or the same time
are one key. Of several flaws the first one decides what is reported, where the contents of a
container come after all that stands beside it.
-/

namespace Vimlet

namespace Yaml

/-- Binds a key; a key that was bound keeps its place and its text. -/
def bind (key : Scalar) (value : Document) : List (Scalar × Document) → List (Scalar × Document)
  | [] => [(key, value)]
  | entry :: rest =>
    if entry.1.sameKey key then (entry.1, value) :: rest else entry :: bind key value rest

namespace Node

/-- What a scalar stands for by its tag. -/
def meaning (tag : Option String) (plain : Bool) (text : String) : Except Stop Meaning :=
  match tag with
  | none => return if plain then .ofPlain text.toList else .text
  | some "!" => return .ofPlain text.toList
  | some name =>
    match Meaning.ofTag? name with
    | some meaning => return meaning
    | none => throw refusal

/-- The scalar that a node is as a key. Only scalars can be keys. -/
def key : Node → Except Stop Scalar
  | .scalar tag plain text => do
    let meaning ← meaning tag plain text
    (if meaning = .default then .text else meaning).read text
  | _ => throw refusal

/-! ### Flaws -/

/-- The tags that a container may have. -/
def isContainerTag (tag : Option String) : Bool :=
  tag.all fun name => name == "!" || name == "!!seq" || name == "!!map"

/-- Checks a node without its contents. The answer is the node if it has contents to be checked. -/
def checkSelf (node : Node) : Except Stop (List Node) :=
  match node with
  | .scalar tag plain text => do
    if tag == some "!!seq" || tag == some "!!map" then return [node]
    let _ ← (← meaning tag plain text).read text
    return []
  | .sequence tag _ | .mapping tag _ => if isContainerTag tag then return [node] else throw refusal

/-- The key asks for the contents of another mapping. -/
def isMergeKey : Node → Bool
  | .scalar tag plain text =>
    match meaning tag plain text with
    | .ok meaning => meaning = .merge
    | .error _ => false
  | _ => false

/-- Checks an entry and gives the nodes in it. -/
def checkEntry (entry : Node × Node) : Except Stop (List Node) := do
  let _ ← entry.1.key
  entry.2.checkSelf

/-- Checks the contents of a node. The answer is the nodes in it that have contents themselves. -/
def checkContents : Node → Except Stop (List Node)
  | .scalar .. => throw refusal
  | .sequence tag items =>
    if tag == some "!!map" then throw refusal else List.flatten <$> items.mapM checkSelf
  | .mapping tag entries =>
    if tag == some "!!seq" || entries.any (isMergeKey ·.1) then throw refusal
    else List.flatten <$> entries.mapM checkEntry

/-- Checks nodes, then what is in them, down to a depth. -/
def checkLevels : Nat → List Node → Except Stop Unit
  | 0, _ => return
  | depth + 1, nodes => do checkLevels depth (List.flatten (← nodes.mapM checkContents))

/-! ### Data -/

mutual

/-- How deep nodes are nested. -/
def depth : Node → Nat
  | .scalar .. => 1
  | .sequence _ items => depthOfItems items + 1
  | .mapping _ entries => depthOfEntries entries + 1

def depthOfItems : List Node → Nat
  | [] => 0
  | item :: rest => max (depth item) (depthOfItems rest)

def depthOfEntries : List (Node × Node) → Nat
  | [] => 0
  | (_, value) :: rest => max (depth value) (depthOfEntries rest)

end

mutual

/-- The document of a node. -/
def document : Node → Except Stop Document
  | .scalar tag plain text => do return (← (← meaning tag plain text).read text).document
  | .sequence _ items => do return .sequence (← documents items)
  | .mapping _ entries => do
    let entries ← documentEntries entries
    let bound := entries.foldl (fun bound (key, value) => bind key value bound) []
    return .mapping (bound.map fun (key, value) => (key.keyText, value))

def documents : List Node → Except Stop (List Document)
  | [] => return []
  | item :: rest => do
    let data ← document item
    return data :: (← documents rest)

def documentEntries : List (Node × Node) → Except Stop (List (Scalar × Document))
  | [] => return []
  | (name, value) :: rest => do
    let key ← name.key
    let data ← document value
    return (key, data) :: (← documentEntries rest)

end

end Node

/-- The data of a text. A text without a document is null. -/
def read (text : String) : Except Stop Document := do
  match ← Node.ofTokens? (← tokens text) with
  | some node =>
    Node.checkLevels node.depth (← node.checkSelf)
    node.document
  | none => return .null

end Yaml

end Vimlet
