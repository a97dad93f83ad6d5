import Vimlet.Fault
import Vimlet.Text.Case

/-!
# Namespaces

A namespace holds variables or functions in six scopes. The letter before a colon selects the scope
of a name; a name without one is Global if it starts with an uppercase letter and Local otherwise. A
lookup in the Local scope walks the frames from the innermost one to the first barrier, which a
function call puts up. Only if it meets no barrier does it go on to the Global scope. The Builtin
scope comes last.
-/

namespace Vimlet

/-- The scope that a letter selects. -/
def Scope.ofSigil? : Char → Option Scope
  | 'g' => some .global
  | 'b' => some .buffer
  | 'w' => some .window
  | 's' => some .script
  | 'v' => some .builtin
  | _ => none

/-- The scope of a name, and the name without the letter that selects it. -/
def resolve (name : String) : Except Fault (Scope × String) :=
  match name.toList with
  | sigil :: ':' :: bare =>
    match Scope.ofSigil? sigil with
    | some scope => .ok (scope, String.ofList bare)
    | none => .error (.unknownNamespace name)
  | chars =>
    if chars.contains ':' then .error (.unknownNamespace name)
    else if chars.head?.any Text.isUppercase then .ok (.global, name)
    else .ok (.local, name)

/-- A frame of the Local scope. -/
structure Frame (α : Type) where
  bindings : Table String α := {}
  barrier : Bool

/-- A scope with one table for each identity, of which one may be active. -/
structure Scoped (α : Type) where
  active : Option ScopeId := none
  /-- The table of each identity that was written to. -/
  tables : Table ScopeId (Table String α) := {}

/-- The bindings of all scopes. -/
structure Namespace (α : Type) where
  globals : Table String α := {}
  builtins : Table String α := {}
  buffers : Scoped α := {}
  windows : Scoped α := {}
  scripts : Scoped α := {}
  /-- The frames of the Local scope, the innermost first. -/
  frames : List (Frame α) := []

namespace Frame

variable {α : Type}

def insert (frame : Frame α) (name : String) (value : α) : Frame α :=
  { frame with bindings := frame.bindings.insert name value }

/-- Removes a name from a frame. -/
def erase (frame : Frame α) (name : String) : Frame α :=
  { frame with bindings := frame.bindings.erase name }

def find? (name : String) : List (Frame α) → Option α
  | [] => none
  | frame :: outer =>
    match frame.bindings.get? name with
    | some value => some value
    | none => if frame.barrier then none else find? name outer

/-- No barrier stands between the innermost frame and the Global scope. -/
def openToGlobal (frames : List (Frame α)) : Bool := frames.all fun frame => !frame.barrier

/-- Changes the innermost visible frame with a property. -/
def update (found : Frame α → Bool) (change : Frame α → Frame α) :
    List (Frame α) → Option (List (Frame α))
  | [] => none
  | frame :: outer =>
    if found frame then some (change frame :: outer)
    else if frame.barrier then none
    else (update found change outer).map (frame :: ·)

end Frame

namespace Scoped

variable {α : Type}

/-- The active identity, which must have been set. -/
def activeId (store : Scoped α) (scope : Scope) : Except Fault ScopeId :=
  match store.active with
  | some id => .ok id
  | none => .error (.namespaceNotDefined scope)

def table (store : Scoped α) (scope : Scope) : Except Fault (Table String α) := do
  return (store.tables.get? (← store.activeId scope)).getD {}

def setTable (store : Scoped α) (scope : Scope) (table : Table String α) :
    Except Fault (Scoped α) := do
  return { store with tables := store.tables.insert (← store.activeId scope) table }

end Scoped

namespace Namespace

variable {α : Type}

/-- Makes a buffer the active one. -/
def setBuffer (space : Namespace α) (id : Option ScopeId) : Namespace α :=
  { space with buffers.active := id }

/-- Makes a window the active one. -/
def setWindow (space : Namespace α) (id : Option ScopeId) : Namespace α :=
  { space with windows.active := id }

/-- Makes a script the active one. -/
def setScript (space : Namespace α) (id : Option ScopeId) : Namespace α :=
  { space with scripts.active := id }

/-- Pushes a frame. -/
def enter (space : Namespace α) (barrier : Bool) : Namespace α :=
  { space with frames := { barrier } :: space.frames }

/-- Pops the innermost frame, if there is one. -/
def leave? (space : Namespace α) : Option (Namespace α) :=
  match space.frames with
  | [] => none
  | _ :: outer => some { space with frames := outer }

/-- The number of frames. -/
def depth (space : Namespace α) : Nat := space.frames.length

/-- The table of a scope other than Local, as far as it exists. -/
def table (space : Namespace α) : Scope → Except Fault (Table String α)
  | .global => .ok space.globals
  | .builtin => .ok space.builtins
  | .buffer => space.buffers.table .buffer
  | .window => space.windows.table .window
  | .script => space.scripts.table .script
  | .local => .ok {}

/-- Replaces the table of a scope other than Local. -/
def setTable (space : Namespace α) (scope : Scope) (table : Table String α) :
    Except Fault (Namespace α) :=
  match scope with
  | .global => .ok { space with globals := table }
  | .builtin => .ok { space with builtins := table }
  | .buffer => do return { space with buffers := ← space.buffers.setTable .buffer table }
  | .window => do return { space with windows := ← space.windows.setTable .window table }
  | .script => do return { space with scripts := ← space.scripts.setTable .script table }
  | .local => .ok space

/-- Looks for a Local name. -/
def findLocal? (space : Namespace α) (bare : String) : Option α :=
  match Frame.find? bare space.frames with
  | some value => some value
  | none =>
    match if Frame.openToGlobal space.frames then space.globals.get? bare else none with
    | some value => some value
    | none => space.builtins.get? bare

def find? (space : Namespace α) (name : String) : Except Fault (Option α) := do
  match ← resolve name with
  | (.local, bare) => return space.findLocal? bare
  | (scope, bare) => return (← space.table scope).get? bare

/-- Binds a Local name where it is bound already, else in the innermost barrier, else in the Global
scope. -/
def insertLocal (space : Namespace α) (bare : String) (value : α) : Namespace α :=
  match Frame.update (·.bindings.contains bare) (·.insert bare value) space.frames with
  | some frames => { space with frames }
  | none =>
    match Frame.update (·.barrier) (·.insert bare value) space.frames with
    | some frames => { space with frames }
    | none => { space with globals := space.globals.insert bare value }

def insert (space : Namespace α) (name : String) (value : α) : Except Fault (Namespace α) := do
  match ← resolve name with
  | (.builtin, _) => throw (.readOnlyNamespace name)
  | (.local, bare) => return space.insertLocal bare value
  | (scope, bare) => space.setTable scope ((← space.table scope).insert bare value)

/-- Binds a Local name in the innermost frame, and any other name like `insert`. -/
def declare (space : Namespace α) (name : String) (value : α) : Except Fault (Namespace α) := do
  match ← resolve name, space.frames with
  | (.local, bare), frame :: outer =>
    return { space with frames := frame.insert bare value :: outer }
  | _, _ => space.insert name value

/-- Removes a Local name, if it is bound outside the Builtin scope. -/
def removeLocal? (space : Namespace α) (bare : String) : Option (Namespace α) :=
  match Frame.update (·.bindings.contains bare) (·.erase bare) space.frames with
  | some frames => some { space with frames }
  | none =>
    if Frame.openToGlobal space.frames && space.globals.contains bare then
      some { space with globals := space.globals.erase bare }
    else none

/-- Removes a name; the answer is nothing if it was not bound. -/
def remove? (space : Namespace α) (name : String) : Except Fault (Option (Namespace α)) := do
  match ← resolve name with
  | (.builtin, _) => throw (.readOnlyNamespace name)
  | (.local, bare) => return space.removeLocal? bare
  | (scope, bare) =>
    let table ← space.table scope
    if table.contains bare then return some (← space.setTable scope (table.erase bare))
    else return none

/-- Binds a name in the Builtin scope. -/
def insertBuiltin (space : Namespace α) (bare : String) (value : α) : Namespace α :=
  { space with builtins := space.builtins.insert bare value }

end Namespace

end Vimlet
