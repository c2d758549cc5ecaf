/-!
# Configuration

Two choices that every reading and writing follows: whether errors say where they arose, and
what becomes of the keys of an object that its record has no place for.
-/

namespace Bindery

/-- What becomes of a key that a record has no place for. -/
inductive UnknownKeys
  | skip
  | reject
  deriving DecidableEq

/-- The name of what becomes of unknown keys. -/
def UnknownKeys.kindName : UnknownKeys → String
  | skip => "Skip"
  | reject => "Reject"

/-- How values are read and written. -/
structure Config where
  /-- Whether errors say where they arose. -/
  tracking : Bool := true
  unknownKeys : UnknownKeys := .skip
  deriving DecidableEq

end Bindery
