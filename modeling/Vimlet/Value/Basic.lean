import Vimlet.Table

/-!
# Values

Scripts compute with eight kinds of values. Lists and Objects are handles to cells of a heap, so
that every alias of a container sees its mutation; all other values are immutable.
-/

namespace Vimlet

/-- The kinds of values. -/
inductive Kind where
  | integer
  | str
  | function
  | list
  | object
  | number
  | bool
  | nil
deriving DecidableEq, Repr

namespace Kind

def name : Kind → String
  | integer => "Integer"
  | str => "Str"
  | function => "Function"
  | list => "List"
  | object => "Object"
  | number => "Number"
  | bool => "Bool"
  | nil => "Nil"

/-- The number that `type` gives for a kind. -/
def code : Kind → Nat
  | integer => 0
  | str => 1
  | function => 2
  | list => 3
  | object => 4
  | number => 5
  | bool => 6
  | nil => 7

end Kind

/-- Identity of a buffer, a window or a script. -/
inductive ScopeId where
  | number (n : Int)
  | name (text : String)
deriving DecidableEq, Repr

/-- A reference to a function by name. A reference to a function of a script remembers the script.
-/
structure FuncRef where
  name : String
  /-- The script in which the name is resolved, if not the active one. -/
  script : Option ScopeId
  /-- Tells references apart that were made at different times. -/
  serial : Nat := 0
deriving DecidableEq, Repr

/-- Two references stand for the same function. -/
def FuncRef.agrees (a b : FuncRef) : Bool := a.name == b.name && a.script == b.script

/-- A value, where containers are cells of a heap. -/
inductive Value where
  | nil
  | bool (b : Bool)
  | integer (n : Int)
  | number (x : Float)
  | str (text : String)
  | list (cell : Nat)
  | object (cell : Nat)
  | function (ref : FuncRef)
deriving Repr

instance : Inhabited Value := ⟨.nil⟩

namespace Value

/-- The kind of a value. -/
def kind : Value → Kind
  | nil => .nil
  | bool _ => .bool
  | integer _ => .integer
  | number _ => .number
  | str _ => .str
  | list _ => .list
  | object _ => .object
  | function _ => .function

def isInteger : Value → Bool
  | integer _ => true
  | _ => false

/-- A value that converts to a position: an Integer, a Number or a Bool. -/
def isNumeric : Value → Bool
  | integer _ | number _ | bool _ => true
  | _ => false

/-- Two values are the same: the same container or reference, or equal scalars. Scalars have no
identity and are compared by value. -/
def same : Value → Value → Bool
  | nil, nil => true
  | bool a, bool b => a == b
  | integer a, integer b => a == b
  | number a, number b => a.toBits == b.toBits
  | str a, str b => a == b
  | list a, list b => a == b
  | object a, object b => a == b
  | function a, function b => a == b
  | _, _ => false

end Value

end Vimlet
