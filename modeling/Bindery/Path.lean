import Bindery.Number
import Bindery.Text.Alphanumeric
/-!
# Paths

A path is the chain of member names and positions that leads from the root of a document to a
place in it. Rendered, a name of letters, digits and underscores follows a dot; any other name is
quoted in brackets, its quotes and backslashes escaped; a position stands in brackets.
-/

namespace Bindery

/-- One step down into a container. -/
inductive Step
  | key (name : String)
  | index (i : Nat)
  deriving DecidableEq

/-- A step, and the type of the container it goes into. -/
structure Segment where
  owner : String
  step : Step
  deriving DecidableEq

/-- The segments from the root down; the root itself has none. -/
abbrev Path := List Segment

namespace Step

/-- Whether a name can follow a dot. -/
def isPlain (name : String) : Bool :=
  let chars := name.toList
  !chars.isEmpty && chars.all fun c => isAlphanumeric c || c == '_'

/-- A character inside a bracketed name. -/
def quoteChar (c : Char) : List Char := if c = '\\' ∨ c = '\'' then ['\\', c] else [c]

/-- The characters of a step. -/
def chars : Step → List Char
  | key name =>
    if isPlain name then '.' :: name.toList
    else '[' :: '\'' :: (name.toList.flatMap quoteChar ++ ['\'', ']'])
  | index i => '[' :: (Nat.toDigits 10 i ++ [']'])

end Step

namespace Path

/-- The text of a path. -/
def render (path : List Segment) : String :=
  String.ofList ('$' :: path.flatMap (·.step.chars))

/-- The path of a member. -/
def member (path : List Segment) (owner key : String) : List Segment := path ++ [⟨owner, .key key⟩]

/-- The path of an item. -/
def item (path : List Segment) (owner : String) (i : Nat) : List Segment :=
  path ++ [⟨owner, .index i⟩]

end Path

/-- Where a value stands, if paths are tracked. -/
abbrev Place := Option (List Segment)

namespace Place

/-- The root, if paths are tracked. -/
def root (tracking : Bool) : Place := if tracking then some [] else none

/-- The place of a member. -/
def member (place : Place) (owner key : String) : Place :=
  Option.map (Path.member · owner key) place

/-- The place of an item. -/
def item (place : Place) (owner : String) (i : Nat) : Place :=
  Option.map (Path.item · owner i) place

end Place
end Bindery
