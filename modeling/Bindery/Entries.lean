/-!
# Ordered entries

A finite map kept as its entries, in order of first arrival. Inserting under a key that is
present replaces the value where it stands; erasing keeps the order of the rest. Keys built by
these operations are pairwise different.
-/

namespace Bindery

variable {α β : Type}

/-- Entries in order of arrival. -/
abbrev Entries (α : Type) := List (String × α)

namespace Entries

/-- The value under a key. -/
def find? : List (String × α) → String → Option α
  | [], _ => none
  | (k, v) :: rest, key => if k = key then some v else find? rest key

/-- Puts a value under a key, in place if the key is present and at the end otherwise. -/
def insert : List (String × α) → String → α → List (String × α)
  | [], key, value => [(key, value)]
  | (k, v) :: rest, key, value =>
    if k = key then (k, value) :: rest else (k, v) :: insert rest key value

/-- Removes the entry of a key. -/
def erase : List (String × α) → String → List (String × α)
  | [], _ => []
  | (k, v) :: rest, key => if k = key then rest else (k, v) :: erase rest key

/-- Changes the value under a key, if the key is present. -/
def modify : List (String × α) → String → (α → α) → List (String × α)
  | [], _, _ => []
  | (k, v) :: rest, key, f => if k = key then (k, f v) :: rest else (k, v) :: modify rest key f

/-- Whether a key is present. -/
def contains (entries : List (String × α)) (key : String) : Bool := (find? entries key).isSome

/-- The keys in order. -/
def keys (entries : List (String × α)) : List String := entries.map Prod.fst

/-- Inserts entries in turn. -/
def insertAll (entries more : List (String × α)) : List (String × α) :=
  more.foldl (fun entries e => insert entries e.1 e.2) entries

/-- Entries inserted in turn from nothing. -/
def ofList (entries : List (String × α)) : List (String × α) := insertAll [] entries

end Entries
end Bindery
