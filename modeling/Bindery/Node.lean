import Bindery.Entries
import Bindery.Number
import Bindery.Text.Quoted
/-!
# Nodes

A node is a document without a declared type: a scalar, an array of nodes or an object, whose
entries keep their order of arrival. Two objects are equal if their entries are, in order.
-/

namespace Bindery

/-- A document tree. -/
inductive Node
  | null
  | bool (b : Bool)
  | number (n : Number)
  | string (s : String)
  | array (items : List Node)
  | object (entries : List (String × Node))
  deriving Inhabited

namespace Node

mutual

/-- Equality, numbers compared by `Number.numEq`. -/
def nodeEq : Node → Node → Bool
  | null, null => true
  | bool a, bool b => a == b
  | number a, number b => a.numEq b
  | string a, string b => a == b
  | array as, array bs => itemsEq as bs
  | object as, object bs => entriesEq as bs
  | _, _ => false

/-- Equality item by item. -/
def itemsEq : List Node → List Node → Bool
  | [], [] => true
  | a :: as, b :: bs => nodeEq a b && itemsEq as bs
  | _, _ => false

/-- Equality entry by entry. -/
def entriesEq : List (String × Node) → List (String × Node) → Bool
  | [], [] => true
  | (j, a) :: as, (k, b) :: bs => j == k && nodeEq a b && entriesEq as bs
  | _, _ => false

end

/-- Whether this is the null node. -/
def isNull : Node → Bool
  | null => true
  | _ => false

/-- The boolean of a boolean node. -/
def bool? : Node → Option Bool
  | bool b => some b
  | _ => none

/-- The number of a number node. -/
def number? : Node → Option Number
  | number n => some n
  | _ => none

/-- The text of a string node. -/
def string? : Node → Option String
  | string s => some s
  | _ => none

/-- The items of an array node. -/
def items? : Node → Option (List Node)
  | array items => some items
  | _ => none

/-- The entries of an object node. -/
def entries? : Node → Option (List (String × Node))
  | object entries => some entries
  | _ => none

/-- The node under a key of an object node. -/
def get? (n : Node) (key : String) : Option Node := n.entries?.bind (Entries.find? · key)

/-- The node at a position of an array node. -/
def getIndex? (n : Node) (i : Nat) : Option Node := n.items?.bind (·[i]?)

/-- The spellings of several things, separated by commas. -/
def commaSeparated (texts : List String) : String := ",".intercalate texts

mutual

/-- The compact JSON text of a node whose numbers are spelled by `number`; none if some number
has no spelling. -/
def text? (number : Number → Option String) : Node → Option String
  | .null => some "null"
  | .bool b => some (if b then "true" else "false")
  | .number n => number n
  | .string s => some (Quoted.write s)
  | .array items => (itemTexts? number items).map fun ts => "[" ++ commaSeparated ts ++ "]"
  | .object entries =>
    (entryTexts? number entries).map fun ts => "\x7b" ++ commaSeparated ts ++ "\x7d"

/-- The texts of the items of an array. -/
def itemTexts? (number : Number → Option String) : List Node → Option (List String)
  | [] => some []
  | n :: rest => do
    let t ← text? number n
    let ts ← itemTexts? number rest
    return t :: ts

/-- The texts of the entries of an object. -/
def entryTexts? (number : Number → Option String) : List (String × Node) → Option (List String)
  | [] => some []
  | (k, n) :: rest => do
    let t ← text? number n
    let ts ← entryTexts? number rest
    return (Quoted.write k ++ ":" ++ t) :: ts

end

/-- The compact JSON text; none if some number is infinite or a NaN. -/
def display? (numerals : Json.Numerals) (n : Node) : Option String := n.text? (Number.json? numerals)

end Node
end Bindery
