import Bindery.Entries
/-!
# Key tables

A key table finds the position a key belongs to in a list of things with a name and aliases. Two
tables are filled in one pass, later positions taking over earlier ones; names are asked first.
-/

namespace Bindery

/-- Something that goes by a name and by aliases. -/
structure Names where
  name : String
  aliases : List String := []
  deriving DecidableEq

/-- The position of each name and of each alias. -/
structure KeyTable where
  names : List (String × Nat) := []
  aliases : List (String × Nat) := []
  deriving DecidableEq

namespace KeyTable

/-- Enters the name and the aliases of a position. -/
def enter (t : KeyTable) (position : Nat) (n : Names) : KeyTable :=
  { names := Entries.insert t.names n.name position
    aliases := n.aliases.foldl (fun as a => Entries.insert as a position) t.aliases }

/-- The table of a list of names. -/
def ofNames (all : List Names) : KeyTable :=
  all.zipIdx.foldl (fun t p => t.enter p.2 p.1) {}

/-- The position of a key: as a name, else as an alias. -/
def find? (t : KeyTable) (key : String) : Option Nat :=
  (Entries.find? t.names key).or (Entries.find? t.aliases key)

end KeyTable
end Bindery
