import Bindery.Decode.Typed
import Bindery.Encode
import Bindery.Json.Library
import Bindery.Json.Writer
import Bindery.Node.Builder
import Bindery.Node.Cursor
import Bindery.Tape
/-!
# Binders

A binder reads and writes values within a context. Reading registers the type first; writing
changes nothing. Nodes are read by a cursor and JSON text by way of a node; they are written by a
builder and by the spelling of marks. What JSON text needs of libraries is a parameter.
-/

namespace Bindery

/-- Reads and writes values within a context. -/
structure Binder extends Context

namespace Binder

variable {σ : Type} [TokenSource σ]

/-- Registers a type and all that it is made of. -/
def register (b : Binder) (t : Ty) : Binder :=
  { b with registry := b.registry.register b.schema t }

/-- Registers a type as `register` does; it must be a record that can be read field by field. -/
def registerRecord (b : Binder) (t : Ty) : Except BindError Record × Binder :=
  let b := b.register t
  let answer : Except BindError Record :=
    match t with
    | .record name => do
      let r := b.schema.record name
      r.check
      let kind := b.classify t
      if kind.isRecord then return r else throw (.typeError name (.notARecord kind))
    | t => throw (.typeError t.path (.otherKind TyKind.record.text t.kind.text))
  (answer, b)

/-- Registers a codec in the place of any other for its type. -/
def registerCodec (b : Binder) (c : Codec) : Binder :=
  { b with registry := b.registry.registerCodec b.schema c }

/-! ## Reading -/

/-- Reads a value of a type from a source, registering nothing. -/
def read (b : Binder) (t : Ty) (s : σ) : Except BindError Value × σ :=
  (Decode.root b.toContext t).run s

/-- Reads a value of a type from a node, registering nothing. -/
def readNode (b : Binder) (t : Ty) (n : Node) : Except BindError Value :=
  (b.read t (NodeCursor.ofNode n)).1

/-- Registers a type and reads a value of it from a source. -/
def decode (b : Binder) (t : Ty) (s : σ) : Except BindError Value × σ × Binder :=
  let b := b.register t
  let (v, s) := b.read t s
  (v, s, b)

/-- Registers a type and reads a value of it from a node. -/
def fromNode (b : Binder) (t : Ty) (n : Node) : Except BindError Value × Binder :=
  let (v, _, b) := b.decode t (NodeCursor.ofNode n)
  (v, b)

/-- The document in a JSON text: the node that is made of what is announced. -/
def parseJson (L : Json.Library) (text : String) : Except BindError Node :=
  match L.read text with
  | .error problem => .error (.malformed (.json problem))
  | .ok v =>
    match v.node with
    | .ok n => .ok n
    | .error m => .error (.malformed (.json m.text))

/-- Reads a value of a type from JSON text, registering nothing. -/
def readJson (L : Json.Library) (b : Binder) (t : Ty) (text : String) : Except BindError Value := do
  b.readNode t (← parseJson L text)

/-- Reads a value of a type from JSON text; the type is registered if the text is a document. -/
def fromJson (L : Json.Library) (b : Binder) (t : Ty) (text : String) :
    Except BindError Value × Binder :=
  match parseJson L text with
  | .ok n => b.fromNode t n
  | .error e => (.error e, b)

/-! ## Writing -/

/-- The emission of a value. -/
def encode (b : Binder) (v : Value) : Emission := Encode.root b.toContext v

/-- A value as a node. -/
def toNode (b : Binder) (v : Value) : Except BindError Node := do
  let (answer, builder) := (b.encode v).writeTo NodeBuilder.mark {}
  answer
  builder.finish

/-- A value as JSON text. -/
def toJson (numerals : Json.Numerals) (b : Binder) (v : Value) : Except BindError String := do
  let (answer, text) := (b.encode v).writeTo (Json.write numerals) ""
  answer
  return text

end Binder
end Bindery
