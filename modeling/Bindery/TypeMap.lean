import Bindery.Ty
/-!
# Maps keyed by types

A finite map from types to anything, kept in the order in which its types arrived. At most one
value belongs to a type.
-/

namespace Bindery

variable {α : Type}

/-- A finite map from types, in order of first insertion. -/
structure TypeMap (α : Type) where
  entries : List (Ty × α) := []

namespace TypeMap

/-- The map without entries. -/
def empty : TypeMap α := {}

/-- The value of a type. -/
def find? (m : TypeMap α) (t : Ty) : Option α := m.entries.lookup t

/-- Whether a type has a value. -/
def contains (m : TypeMap α) (t : Ty) : Bool := (m.find? t).isSome

/-- The number of types. -/
def size (m : TypeMap α) : Nat := m.entries.length

/-- The types in order. -/
def types (m : TypeMap α) : List Ty := m.entries.map (·.1)

/-- The values in order. -/
def values (m : TypeMap α) : List α := m.entries.map (·.2)

/-- Changes the value of a type, if it has one. -/
def modify (m : TypeMap α) (t : Ty) (f : α → α) : TypeMap α :=
  ⟨m.entries.map fun e => if e.1 = t then (e.1, f e.2) else e⟩

/-- Gives a type a value, replacing the one it has. -/
def insert (m : TypeMap α) (t : Ty) (a : α) : TypeMap α :=
  if m.contains t then m.modify t fun _ => a else ⟨m.entries ++ [(t, a)]⟩

/-- Gives a type a value unless it has one. The answer is whether it was given. -/
def tryInsert (m : TypeMap α) (t : Ty) (a : Unit → α) : Bool × TypeMap α :=
  if m.contains t then (false, m) else (true, ⟨m.entries ++ [(t, a ())]⟩)

/-- Takes the value of a type away. -/
def erase (m : TypeMap α) (t : Ty) : TypeMap α := ⟨m.entries.filter fun e => e.1 ≠ t⟩

end TypeMap
end Bindery
