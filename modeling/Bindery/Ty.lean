import Bindery.IntType
/-!
# Types

A type is described by data. Records and foreign types go by name, so a recursive record is a
finite description: a schema says what the record of a name is, and only a codec knows the values
of a foreign type.
-/

namespace Bindery

/-- The scalar types. -/
inductive ScalarType
  | unit
  | bool
  | char
  | int (t : IntType)
  | f32
  | f64
  | string
  | number
  deriving DecidableEq

/-- The sequence types: two that grow, and two that are made at their final size. -/
inductive SeqKind
  | vec
  | deque
  | boxed
  | fixed (length : Nat)
  deriving DecidableEq

/-- How a set or a map keeps its elements: sorted, or hashed in one of two ways. -/
inductive Keeping
  | sorted
  | hashed
  | fixedHashed
  deriving DecidableEq

/-- The types of documents without a declared type. -/
inductive DynamicKind
  | any
  | object
  | array
  deriving DecidableEq

/-- What sort of thing a type describes. -/
inductive TyKind
  | scalar | enum | option | list | array | set | map | dynamic | record | foreign
  deriving DecidableEq

namespace TyKind

/-- The word for a kind in messages. -/
def text : TyKind → String
  | scalar => "a scalar"
  | enum => "an enum"
  | option => "an option"
  | list => "a list"
  | array => "an array"
  | set => "a set"
  | map => "a map"
  | dynamic => "a dynamic node"
  | record => "a pojo"
  | foreign => "opaque"

/-- All kinds, in order. -/
def all : List TyKind :=
  [scalar, enum, option, list, array, set, map, dynamic, record, foreign]

end TyKind

/-- A type. -/
inductive Ty
  | scalar (s : ScalarType)
  | enum (name : String) (variants : List String)
  | option (payload : Ty)
  | seq (kind : SeqKind) (item : Ty)
  | set (keeping : Keeping) (item : Ty)
  | map (keeping : Keeping) (value : Ty)
  | dynamic (kind : DynamicKind)
  | record (name : String)
  | foreign (name : String)
  deriving DecidableEq

namespace ScalarType

/-- The full name of a scalar type. -/
def path : ScalarType → String
  | unit => "()"
  | bool => "bool"
  | char => "char"
  | int t => t.name
  | f32 => "f32"
  | f64 => "f64"
  | string => "alloc::string::String"
  | number => "nb_bind::node::number::Number"

/-- The short name of a scalar type. -/
def kindName : ScalarType → String
  | unit => "Unit"
  | bool => "Bool"
  | char => "Char"
  | int t => t.name.capitalize
  | f32 => "F32"
  | f64 => "F64"
  | string => "String"
  | number => "Number"

end ScalarType

namespace DynamicKind

/-- The full name of a dynamic type. -/
def path : DynamicKind → String
  | any => "nb_bind::node::Node"
  | object => "nb_bind::node::object::JsonObject"
  | array => "nb_bind::node::array::JsonArray"

/-- The short name of a dynamic type. -/
def kindName : DynamicKind → String
  | any => "Any"
  | object => "Object"
  | array => "Array"

end DynamicKind

namespace Ty

/-- The integer types. -/
def int (t : IntType) : Ty := .scalar (.int t)

/-- Text. -/
def string : Ty := .scalar .string

/-- The full name of a sequence type. -/
def seqPath : SeqKind → String → String
  | .vec, item => "alloc::vec::Vec<" ++ item ++ ">"
  | .deque, item => "alloc::collections::vec_deque::VecDeque<" ++ item ++ ">"
  | .boxed, item => "alloc::boxed::Box<[" ++ item ++ "]>"
  | .fixed n, item => "[" ++ item ++ "; " ++ String.ofList (Nat.toDigits 10 n) ++ "]"

/-- The full name of a set type. -/
def setPath : Keeping → String → String
  | .sorted, item => "alloc::collections::btree::set::BTreeSet<" ++ item ++ ">"
  | .hashed, item => "std::collections::hash::set::HashSet<" ++ item ++ ">"
  | .fixedHashed, item => "hashbrown::set::HashSet<" ++ item ++ ", nb_utils::hash::FixedHashState>"

/-- The full name of a map type; its keys are text. -/
def mapPath : Keeping → String → String
  | .sorted, value =>
    "alloc::collections::btree::map::BTreeMap<alloc::string::String, " ++ value ++ ">"
  | .hashed, value =>
    "std::collections::hash::map::HashMap<alloc::string::String, " ++ value ++ ">"
  | .fixedHashed, value =>
    "hashbrown::map::HashMap<alloc::string::String, " ++ value
      ++ ", nb_utils::hash::FixedHashState>"

/-- The full name of a type. -/
def path : Ty → String
  | scalar s => s.path
  | enum name _ => name
  | option payload => "core::option::Option<" ++ payload.path ++ ">"
  | seq kind item => seqPath kind item.path
  | set keeping item => setPath keeping item.path
  | map keeping value => mapPath keeping value.path
  | dynamic kind => kind.path
  | record name => name
  | foreign name => name

/-- The kind of a type. -/
def kind : Ty → TyKind
  | scalar _ => .scalar
  | enum _ _ => .enum
  | option _ => .option
  | seq .vec _ | seq .deque _ => .list
  | seq .boxed _ | seq (.fixed _) _ => .array
  | set _ _ => .set
  | map _ _ => .map
  | dynamic _ => .dynamic
  | record _ => .record
  | foreign _ => .foreign

/-- Whether null is itself a value of the type. -/
def acceptsNull : Ty → Bool
  | option _ | scalar .unit | dynamic .any => true
  | _ => false

end Ty
end Bindery
