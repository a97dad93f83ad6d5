/-!
# Tables

A finite map that remembers the order in which its keys were first inserted.
-/

namespace Vimlet

/-- A finite map with its entries in the order of first insertion. -/
structure Table (κ α : Type) where
  entries : List (κ × α) := []
deriving DecidableEq, Repr

namespace Table

variable {κ α : Type} [DecidableEq κ]

/-- The table without entries. -/
def empty : Table κ α := ⟨[]⟩

instance : Inhabited (Table κ α) := ⟨empty⟩

/-- The value of a key. -/
def get? (table : Table κ α) (key : κ) : Option α := table.entries.lookup key

/-- The table has a key. -/
def contains (table : Table κ α) (key : κ) : Bool := (table.get? key).isSome

/-- Overwrites the entry of a key in place, or adds one at the end. -/
def put (key : κ) (value : α) : List (κ × α) → List (κ × α)
  | [] => [(key, value)]
  | entry :: rest => if entry.1 = key then (key, value) :: rest else entry :: put key value rest

/-- Binds a key; a key that was bound keeps its position. -/
def insert (table : Table κ α) (key : κ) (value : α) : Table κ α :=
  ⟨put key value table.entries⟩

/-- The table without a key. -/
def erase (table : Table κ α) (key : κ) : Table κ α :=
  ⟨table.entries.filter fun entry => entry.1 ≠ key⟩

/-- The table that arises by inserting entries from left to right. -/
def ofList (entries : List (κ × α)) : Table κ α :=
  entries.foldl (fun table entry => table.insert entry.1 entry.2) empty

omit [DecidableEq κ]

/-- The keys in their order. -/
def keys (table : Table κ α) : List κ := table.entries.map (·.1)

/-- The values in the order of their keys. -/
def values (table : Table κ α) : List α := table.entries.map (·.2)

/-- The number of entries. -/
def size (table : Table κ α) : Nat := table.entries.length

end Table

end Vimlet
