import Bindery.Codec
import Bindery.Record
import Bindery.Text.Diagnostic
/-!
# Descriptions

What can be asked of a type without reading or writing a value of it: the coarse kind of
container it is, whether it is of a certain kind, and its diagnostic text.
-/

namespace Bindery

/-- Which container routine binds a field of a type. -/
inductive ContainerKind
  | scalar | map | list | set
  deriving DecidableEq

/-- The word for a container kind. -/
def ContainerKind.text : ContainerKind → String
  | scalar => "Scalar"
  | map => "Map"
  | list => "List"
  | set => "Set"

/-- A type that is of another kind than was asked for. -/
structure KindMismatch where
  type : String
  expected : TyKind
  received : TyKind
  deriving DecidableEq

namespace KindMismatch

/-- The wording of the mismatch. -/
def text (m : KindMismatch) : String :=
  "`" ++ m.type ++ "` is " ++ m.received.text ++ ", not " ++ m.expected.text

/-- The mismatch as an error of binding. -/
def toError (m : KindMismatch) : BindError :=
  .typeError m.type (.otherKind m.expected.text m.received.text)

end KindMismatch

namespace Ty

/-- The container kind of a type: dynamic objects count as maps and dynamic arrays as lists. -/
def containerKind : Ty → ContainerKind
  | seq _ _ => .list
  | set _ _ => .set
  | map _ _ | dynamic .object => .map
  | dynamic .array => .list
  | _ => .scalar

/-- Checks the kind of a type. -/
def checkKind (t : Ty) (expected : TyKind) : Except KindMismatch Unit :=
  if t.kind = expected then .ok () else .error ⟨t.path, expected, t.kind⟩

end Ty

/-! ## Diagnostic text -/

open Diagnostic

/-- The diagnostic text of a field. -/
def Field.describe (f : Field) : String :=
  group "FieldInfo"
    [("name", quote f.name), ("aliases", list (f.aliases.map quote)), ("ty", f.type.path),
      ("setter", bool f.hasSetter)]

/-- The diagnostic text of an argument. -/
def Arg.describe (a : Arg) : String :=
  group "ArgInfo"
    [("name", quote a.name), ("aliases", list (a.aliases.map quote)), ("ty", a.type.path)]

/-- The diagnostic text of a creator. -/
def Creator.describe (c : Creator) : String :=
  group "CreatorInfo"
    [("owner", c.owner.path), ("args", list (c.args.map Arg.describe)),
      ("no_args", bool c.noArgs.isSome)]

/-- The diagnostic text of a record. -/
def Record.describe (r : Record) : String :=
  let creator :=
    match r.creator with
    | some c => "Some(" ++ c.describe ++ ")"
    | none => "None"
  group "PojoInfo"
    [("ty", r.name), ("fields", list (r.fields.map Field.describe)), ("creator", creator),
      ("hybrid", bool r.hybrid.isSome)]

/-- The diagnostic text of a type. -/
def Schema.describe (Γ : Schema) (t : Ty) : String :=
  let ty := ("ty", t.path)
  let (outer, inner) :=
    match t with
    | .scalar s => ("Scalar", group "ScalarInfo" [ty, ("kind", s.kindName)])
    | .enum _ names => ("Enum", group "EnumInfo" [ty, ("variants", list (names.map quote))])
    | .option _ => ("Optional", group "OptionalInfo" [ty])
    | .seq .vec _ | .seq .deque _ => ("List", group "ListInfo" [ty])
    | .seq .boxed _ | .seq (.fixed _) _ => ("Array", group "ArrayInfo" [ty])
    | .set _ _ => ("Set", group "SetInfo" [ty])
    | .map _ _ => ("Map", group "MapInfo" [ty])
    | .dynamic k => ("Dynamic", group "DynamicInfo" [ty, ("kind", k.kindName)])
    | .record name => ("Pojo", (Γ.record name).describe)
    | .foreign _ => ("Opaque", group "OpaqueInfo" [ty])
  outer ++ "(" ++ inner ++ ")"

/-- The diagnostic text of a value. -/
def Value.describe (v : Value) : String := "dyn Reflect(" ++ v.ty.path ++ ")"

/-- The diagnostic text of a codec. -/
def Codec.describe (c : Codec) : String :=
  group "ValueCodecInfo" [("ty", c.type.path), ("wire_kind", c.wire.kindName)]

end Bindery
