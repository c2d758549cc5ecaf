import Bindery.Node
import Bindery.Text.Diagnostic
/-!
# Nodes from visits

A node can be made from what a deserializer announces: scalars, sequences and maps, optional
values and units. Byte strings announce nothing a node can hold. `Node.expectObject` and
`Node.expectArray` take the part of a node that a caller insists on.
-/

namespace Bindery

/-- What a deserializer announces. -/
inductive Visit
  | unit
  | nothing
  | something (v : Visit)
  | bool (b : Bool)
  | signed (v : Int64)
  | unsigned (v : UInt64)
  | double (x : Binary64)
  | text (s : String)
  | bytes
  | sequence (items : List Visit)
  | entries (entries : List (String × Visit))

/-- Something of another shape than was expected. -/
structure Mismatch where
  found : String
  expected : String
  deriving DecidableEq

/-- The wording of a mismatch. -/
def Mismatch.text (m : Mismatch) : String :=
  "invalid type: " ++ m.found ++ ", expected " ++ m.expected

namespace Visit

mutual

/-- The node announced. -/
def node : Visit → Except Mismatch Node
  | .unit | .nothing => .ok .null
  | .something v => node v
  | .bool b => .ok (.bool b)
  | .signed v => .ok (.number (.ofInt64 v))
  | .unsigned v => .ok (.number (.posInt v))
  | .double x => .ok (.number (.float x))
  | .text s => .ok (.string s)
  | .bytes => .error ⟨"byte array", "any JSON-like value"⟩
  | .sequence vs => do return .array (← nodes vs)
  | .entries es => do return .object (Entries.ofList (← entryNodes es))

/-- The nodes announced one after the other. -/
def nodes : List Visit → Except Mismatch (List Node)
  | [] => .ok []
  | v :: rest => do
    let n ← node v
    return n :: (← nodes rest)

/-- The entries announced one after the other. -/
def entryNodes : List (String × Visit) → Except Mismatch (List (String × Node))
  | [] => .ok []
  | (k, v) :: rest => do
    let n ← node v
    return (k, n) :: (← entryNodes rest)

end

end Visit

namespace Node

/-- How a mismatch names what was found instead. -/
structure Naming where
  null : String
  double : Binary64 → String

/-- The name of what a node is. -/
def found (naming : Naming) : Node → String
  | null => naming.null
  | bool b => "boolean `" ++ (if b then "true" else "false") ++ "`"
  | number (.float x) => "floating point `" ++ naming.double x ++ "`"
  | number n => "integer `" ++ n.display ++ "`"
  | string s => "string " ++ Diagnostic.quote s
  | array _ => "sequence"
  | object _ => "map"

/-- The node, if it is an object. -/
def expectObject (naming : Naming) (n : Node) : Except Mismatch Node :=
  match n with
  | .object _ => .ok n
  | _ => .error ⟨n.found naming, "an object"⟩

/-- The node, if it is an array. -/
def expectArray (naming : Naming) (n : Node) : Except Mismatch Node :=
  match n with
  | .array _ => .ok n
  | _ => .error ⟨n.found naming, "an array"⟩

end Node
end Bindery
