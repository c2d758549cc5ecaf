import Bindery.Codec
/-!
# File paths

A file path is text, or bytes that are no text. Only the former can be written. Paths are compared
by their components: what stands between slashes, but that neither an empty piece nor a point
counts, except for a point that a path begins with.
-/

namespace Bindery

/-- A file path. -/
inductive FilePath
  | text (s : String)
  | bytes (raw : List UInt8)

namespace FilePath

/-- The full name of the type of file paths. -/
def path : String := "std::path::PathBuf"

/-- The type of file paths. -/
def type : Ty := .foreign path

/-- The path made of some bytes. -/
def ofBytes (raw : List UInt8) : FilePath :=
  match String.fromUTF8? ⟨raw.toArray⟩ with
  | some s => text s
  | none => bytes raw

/-- A path as a value. -/
def toValue : FilePath → Value
  | text s => .foreign path [.string s]
  | bytes raw => .foreign path (raw.map fun b => .int .u8 b.toNat)

/-- The text of the path in a value. -/
def text? : Value → Option String
  | .foreign name [.string s] => if name = path then some s else none
  | _ => none

/-- The path in a value: its bytes. -/
def raw? : Value → Option (List UInt8)
  | .foreign name [.string s] => if name = path then some s.toUTF8.toList else none
  | .foreign name parts =>
    if name = path then
      some <| parts.filterMap fun
        | .int _ i => some (UInt8.ofNat i.toNat)
        | _ => none
    else none
  | _ => none

/-! ## Order -/

/-- A component of a file path. -/
inductive Component
  | root
  | here
  | parent
  | normal (bytes : List UInt8)
  deriving DecidableEq

/-- The place of a component among the components. -/
def Component.rank : Component → Nat
  | .root => 0
  | .here => 1
  | .parent => 2
  | .normal _ => 3

/-- The order of components; names go by their bytes. -/
def Component.compare : Component → Component → Ordering
  | .normal as, .normal bs => List.compareLex Ord.compare as bs
  | a, b => Ord.compare a.rank b.rank

/-- The component that a piece between slashes stands for, `dot` if it is a point. -/
def component? (dot : Option Component) : List UInt8 → Option Component
  | [] => none
  | [46] => dot
  | [46, 46] => some .parent
  | piece => some (.normal piece)

/-- The components of a path. -/
def components (raw : List UInt8) : List Component :=
  match raw.splitOn (47 : UInt8) with
  | [] => []
  | [] :: [] => []
  | [] :: rest => .root :: rest.filterMap (component? none)
  | first :: rest => (component? (some .here) first).toList ++ rest.filterMap (component? none)

/-- The order of the file paths in values. -/
def order (v w : Value) : Ordering :=
  match raw? v, raw? w with
  | some as, some bs => List.compareLex Component.compare (components as) (components bs)
  | _, _ => .eq

/-- File paths as text. -/
def codec : Codec where
  type := type
  wire := .string
  write v :=
    match text? v with
    | some s => .ok (.string s)
    | none => .error (.invalidValue path .pathNotUtf8)
  read
    | .string s => .ok (text s).toValue
    | other => .error (.tokenMismatch TokenKind.string.text other.kind)

end FilePath
end Bindery
