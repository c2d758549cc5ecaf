import Bindery.Value
/-!
# Codecs

A codec spells the values of one type as nodes of its wire kind and reads them back. A null is
handed to `decodeNull`, which reads it as any other node unless the codec says otherwise.
-/

namespace Bindery

/-- The shape a codec's nodes have. -/
inductive WireKind
  | string | number | bool | object | array | any
  deriving DecidableEq

namespace WireKind

/-- Whether a node that begins with this kind of token has the shape. -/
def accepts : WireKind → TokenKind → Bool
  | string, k => k == .string
  | number, k => k == .number
  | bool, k => k == .boolean
  | object, k => k == .startObject
  | array, k => k == .startArray
  | any, k => k.isValue

/-- The word for what is expected. -/
def expected : WireKind → String
  | string => TokenKind.string.text
  | number => TokenKind.number.text
  | bool => TokenKind.boolean.text
  | object => TokenKind.startObject.text
  | array => TokenKind.startArray.text
  | any => "a value"

/-- The short name of a wire kind. -/
def kindName : WireKind → String
  | string => "String"
  | number => "Number"
  | bool => "Bool"
  | object => "Object"
  | array => "Array"
  | any => "Any"

/-- All wire kinds. -/
def all : List WireKind := [string, number, bool, object, array, any]

end WireKind

/-- A converter between the values of a type and nodes. -/
structure Codec where
  type : Ty
  wire : WireKind := .any
  write : Value → Except BindError Node
  read : Node → Except BindError Value
  readNull : Except BindError Value := read .null

namespace Codec

/-- Spells a value, which must be of the codec's type. -/
def encode (c : Codec) (v : Value) : Except BindError Node :=
  if v.ty = c.type then c.write v else .error (.typeError c.type.path .foreignCodecValue)

/-- Reads a node. -/
def decode (c : Codec) (n : Node) : Except BindError Value := c.read n

/-- Reads a null. -/
def decodeNull (c : Codec) : Except BindError Value := c.readNull

/-- Reads a node as a value of type `t`. -/
def decodeAs (c : Codec) (t : Ty) (n : Node) : Except BindError Value := do
  Value.ofType t (← c.decode n)

end Codec
end Bindery
