import Bindery.Source
/-!
# Reading a node

A cursor walks a node as a stream of tokens. It stands before a value, before the name of a
member, or at the end of a container, and keeps for each open container what is left of it. It
skips a value in one step.
-/

namespace Bindery

/-- Where a cursor stands. -/
inductive CursorPlace
  | value (n : Node)
  | member (key : String) (n : Node)
  | endObject
  | endArray
  | done

/-- What is left of an open container. -/
inductive CursorFrame
  | object (rest : List (String × Node))
  | array (rest : List Node)

/-- A walk over a node. -/
structure NodeCursor where
  place : CursorPlace
  stack : List CursorFrame

namespace NodeCursor

/-- Before a node. -/
def ofNode (n : Node) : NodeCursor := ⟨.value n, []⟩

/-- Moves to whatever follows in the innermost open container. -/
def next : List CursorFrame → NodeCursor
  | [] => ⟨.done, []⟩
  | .object [] :: stack => ⟨.endObject, .object [] :: stack⟩
  | .object ((k, n) :: rest) :: stack => ⟨.member k n, .object rest :: stack⟩
  | .array [] :: stack => ⟨.endArray, .array [] :: stack⟩
  | .array (n :: rest) :: stack => ⟨.value n, .array rest :: stack⟩

/-- The token a cursor stands before. -/
def front (c : NodeCursor) : Front :=
  match c.place with
  | .value .null => .token .null
  | .value (.bool b) => .token (.bool b)
  | .value (.number n) => .token (.number n)
  | .value (.string s) => .token (.string s)
  | .value (.array _) => .token .startArray
  | .value (.object _) => .token .startObject
  | .member k _ => .token (.name k)
  | .endObject => .token .endObject
  | .endArray => .token .endArray
  | .done => .done

/-- Moves past the token. -/
def advance (c : NodeCursor) : NodeCursor :=
  match c.place with
  | .value (.array items) => next (.array items :: c.stack)
  | .value (.object entries) => next (.object entries :: c.stack)
  | .value _ => next c.stack
  | .member _ n => { c with place := .value n }
  | .endObject | .endArray => next c.stack.tail
  | .done => c

/-- The number of tokens still to come in an open container, its end included. -/
def frameLength : CursorFrame → Nat
  | .object rest => (Node.entryTokens rest).length + 1
  | .array rest => (Node.itemTokens rest).length + 1

/-- The number of tokens still to come. -/
def length (c : NodeCursor) : Nat :=
  let here :=
    match c.place with
    | .value n => n.tokens.length
    | .member _ n => n.tokens.length + 1
    | _ => 0
  c.stack.foldr (fun frame n => frameLength frame + n) here

/-- Steps over the value the cursor stands before. -/
def skip : Reading NodeCursor Unit := fun c =>
  match c.place with
  | .value _ => .ok () (next c.stack)
  | _ => .error (.tokenMismatch "a value" c.front.kind) c

instance : TokenStream NodeCursor := ⟨front, advance, length⟩

instance : TokenSource NodeCursor := ⟨skip⟩

end NodeCursor
end Bindery
