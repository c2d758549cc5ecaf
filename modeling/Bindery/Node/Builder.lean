import Bindery.Error
/-!
# Building a node

A builder takes marks one at a time and keeps the containers that are open. Separators are
ignored. Misplaced values are noticed when they are put in place, so a container opened in the
wrong spot is refused when it closes; what was on the stack for it is gone by then.
-/

namespace Bindery

/-- A container under construction; an object remembers the name its next value goes under. -/
inductive BuilderFrame
  | object (entries : List (String × Node)) (name : Option String)
  | array (items : Array Node)

/-- A node under construction, innermost open container first. -/
structure NodeBuilder where
  stack : List BuilderFrame := []
  root : Option Node := none

namespace NodeBuilder

/-- Puts a finished value in its place. -/
def put (b : NodeBuilder) (n : Node) : Except BindError Unit × NodeBuilder :=
  match b.stack with
  | [] =>
    match b.root with
    | none => (.ok (), { b with root := some n })
    | some _ => (.error (.malformed .secondRoot), b)
  | .object entries (some key) :: rest =>
    (.ok (), { b with stack := .object (Entries.insert entries key n) none :: rest })
  | .object _ none :: _ => (.error (.malformed .unnamedValue), b)
  | .array items :: rest => (.ok (), { b with stack := .array (items.push n) :: rest })

/-- Takes one token. -/
def token (b : NodeBuilder) : Token → Except BindError Unit × NodeBuilder
  | .startObject => (.ok (), { b with stack := .object [] none :: b.stack })
  | .startArray => (.ok (), { b with stack := .array #[] :: b.stack })
  | .endObject =>
    match b.stack with
    | .object entries none :: rest => put { b with stack := rest } (.object entries)
    | stack => (.error (.malformed .strayEndObject), { b with stack := stack.tail })
  | .endArray =>
    match b.stack with
    | .array items :: rest => put { b with stack := rest } (.array items.toList)
    | stack => (.error (.malformed .strayEndArray), { b with stack := stack.tail })
  | .name key =>
    match b.stack with
    | .object entries none :: rest =>
      (.ok (), { b with stack := .object entries (some key) :: rest })
    | _ => (.error (.malformed .strayName), b)
  | .string s => b.put (.string s)
  | .number n => b.put (.number n)
  | .bool v => b.put (.bool v)
  | .null => b.put .null

/-- Takes one mark. -/
def mark (b : NodeBuilder) : Mark → Except BindError Unit × NodeBuilder
  | .token t => b.token t
  | .objectComma | .arrayComma => (.ok (), b)

/-- The finished node. -/
def finish (b : NodeBuilder) : Except BindError Node :=
  match b.stack, b.root with
  | [], some n => .ok n
  | [], none => .error (.malformed .noValue)
  | _ :: _, _ => .error (.malformed .unclosed)

end NodeBuilder
end Bindery
