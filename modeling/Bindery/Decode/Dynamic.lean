import Bindery.Source
/-!
# Reading nodes

Reading documents without a declared type. An object keeps its keys in order of arrival; a
repeated key carries its last value. `budget` bounds both the nesting and the members of a
container: a source that has `n` tokens left needs no more than `n + 1`.
-/

namespace Bindery.Decode

open Reading

variable {σ α : Type} [TokenStream σ] [Listener σ]

/-! ## Containers -/

/-- Reads an array, item by item. -/
def array (budget : Nat) (item : Place → Reading σ α) (owner : String) (place : Place) :
    Reading σ (List α) := do
  startArray
  let items ← forMembers (fun (items : Array α) => do
    return items.push (← item (place.item owner items.size))) budget #[]
  endArray
  return items.toList

/-- Reads an object, of which `member` reads each member into what has been read so far. -/
def object (budget : Nat) (member : α → Reading σ α) (start : α) : Reading σ α := do
  startObject
  let state ← forMembers member budget start
  endObject
  return state

/-! ## Documents -/

/-- Reads an array whose items are read by `item`. -/
def nodeArray (budget : Nat) (item : Place → Reading σ Node) (place : Place) :
    Reading σ (List Node) :=
  array budget (fun child => atPlace child (item child)) DynamicKind.array.path place

/-- Reads an object whose values are read by `value`. -/
def nodeObject (budget : Nat) (value : Place → Reading σ Node) (place : Place) :
    Reading σ (List (String × Node)) :=
  object budget (fun entries => do
    let key ← name
    let child := place.member DynamicKind.object.path key
    return Entries.insert entries key (← atPlace child (value child))) []

/-- Reads whatever value comes next. -/
def node : Nat → Place → Reading σ Node
  | 0, _ => spent
  | budget + 1, place => do
    let start ← get
    let part := fun place => asked (.dynamic .any) start (.dynamic .any) (node budget place)
    match ← peek with
    | .startObject => return .object (← nodeObject budget part place)
    | .startArray => return .array (← nodeArray budget part place)
    | .string => return .string (← string)
    | .number => return .number (← number)
    | .boolean => return .bool (← bool)
    | .null =>
      null
      return .null
    | found => throw (.tokenMismatch "a value" found)

end Bindery.Decode
