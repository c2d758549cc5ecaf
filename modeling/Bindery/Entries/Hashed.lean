import Bindery.Entries
/-!
# Hashed entries

Ordered entries with an index from the hash of a key to the positions that share it. A look-up
asks the index and compares keys only at the positions it names. Erasing closes the gap in the
entries and moves every later position in the index down by one. Nothing depends on the hash
function but speed.
-/

namespace Bindery

variable {α : Type}

/-- Entries, and a pair of hash and position for each of them. -/
structure HashedEntries (α : Type) where
  hash : String → UInt64
  entries : Array (String × α) := #[]
  index : List (UInt64 × Nat) := []

namespace HashedEntries

/-- No entries. -/
def empty (hash : String → UInt64) : HashedEntries α := { hash }

/-- The number of entries. -/
def size (m : HashedEntries α) : Nat := m.entries.size

/-- Whether the entry at a position has a key. -/
def holds (m : HashedEntries α) (position : Nat) (key : String) : Bool :=
  match m.entries[position]? with
  | some e => e.1 == key
  | none => false

/-- The position of a key: one that the index names for its hash and that holds the key. -/
def position? (m : HashedEntries α) (key : String) : Option Nat :=
  let h := m.hash key
  (m.index.find? fun p => p.1 == h && m.holds p.2 key).map (·.2)

/-- The value under a key. -/
def find? (m : HashedEntries α) (key : String) : Option α :=
  (m.position? key).bind fun i => m.entries[i]?.map (·.2)

/-- Whether a key is present. -/
def contains (m : HashedEntries α) (key : String) : Bool := (m.position? key).isSome

/-- The entry at a position. -/
def getIndex? (m : HashedEntries α) (i : Nat) : Option (String × α) := m.entries[i]?

/-- Replaces the value at a position. -/
def setAt (m : HashedEntries α) (i : Nat) (v : α) : HashedEntries α :=
  { m with entries := m.entries.modify i fun e => (e.1, v) }

/-- Puts a value under a key. The answer is the value it replaces. -/
def insert (m : HashedEntries α) (key : String) (v : α) : Option α × HashedEntries α :=
  match m.position? key with
  | some i => (m.entries[i]?.map (·.2), m.setAt i v)
  | none =>
    (none, { m with entries := m.entries.push (key, v)
                    index := (m.hash key, m.entries.size) :: m.index })

/-- Removes the entry of a key. The answer is its value. -/
def erase (m : HashedEntries α) (key : String) : Option α × HashedEntries α :=
  match m.position? key with
  | none => (none, m)
  | some i =>
    (m.entries[i]?.map (·.2),
      { m with entries := m.entries.eraseIdxIfInBounds i
               index := (m.index.erase (m.hash key, i)).map fun p =>
                 if i < p.2 then (p.1, p.2 - 1) else p })

/-- Changes the value under a key. The answer is whether the key is present. -/
def modify (m : HashedEntries α) (key : String) (f : α → α) : Bool × HashedEntries α :=
  match m.position? key with
  | none => (false, m)
  | some i => (true, { m with entries := m.entries.modify i fun e => (e.1, f e.2) })

/-- Removes all entries. -/
def clear (m : HashedEntries α) : HashedEntries α := empty m.hash

/-- Inserts entries in turn. -/
def insertAll (m : HashedEntries α) (more : List (String × α)) : HashedEntries α :=
  more.foldl (fun m e => (m.insert e.1 e.2).2) m

/-- Entries inserted in turn from nothing. -/
def ofList (hash : String → UInt64) (entries : List (String × α)) : HashedEntries α :=
  (empty hash).insertAll entries

/-- The entries in order. -/
def toList (m : HashedEntries α) : List (String × α) := m.entries.toList

end HashedEntries
end Bindery
