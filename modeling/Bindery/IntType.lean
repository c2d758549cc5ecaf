/-!
# Integer types

The ten fixed-width integer types, words and pointers being 64 bits wide.
-/

namespace Bindery

-- Powers are those of the core library, whatever else is in scope.
attribute [local instance (5000)] instPowNat

/-- A fixed-width integer type. -/
inductive IntType
  | i8 | i16 | i32 | i64 | isize
  | u8 | u16 | u32 | u64 | usize
  deriving DecidableEq

namespace IntType

/-- Whether the type has negative members. -/
def signed : IntType → Bool
  | i8 | i16 | i32 | i64 | isize => true
  | u8 | u16 | u32 | u64 | usize => false

/-- The number of bits. -/
def width : IntType → Nat
  | i8 | u8 => 8
  | i16 | u16 => 16
  | i32 | u32 => 32
  | i64 | u64 | isize | usize => 64

/-- The least member. -/
def least (t : IntType) : Int := if t.signed then -2 ^ (t.width - 1) else 0

/-- The greatest member. -/
def greatest (t : IntType) : Int := if t.signed then 2 ^ (t.width - 1) - 1 else 2 ^ t.width - 1

/-- The integer itself if it is a member. -/
def check (t : IntType) (i : Int) : Option Int :=
  if t.least ≤ i ∧ i ≤ t.greatest then some i else none

/-- The name of the type. -/
def name : IntType → String
  | i8 => "i8" | i16 => "i16" | i32 => "i32" | i64 => "i64" | isize => "isize"
  | u8 => "u8" | u16 => "u16" | u32 => "u32" | u64 => "u64" | usize => "usize"

/-- All integer types. -/
def all : List IntType := [i8, i16, i32, i64, isize, u8, u16, u32, u64, usize]

/-- The type of a name. -/
def ofName? (name : String) : Option IntType := all.find? fun t => t.name == name

end IntType
end Bindery
