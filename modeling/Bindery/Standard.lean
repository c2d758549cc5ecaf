import Bindery.Codec.Address
import Bindery.Codec.FilePath
import Bindery.Codec.Instant
import Bindery.Registry
/-!
# The standard registry

It knows the codecs of paths, addresses, durations and instants, and the types without
parameters: scalars, dynamic types and those of its codecs. Durations and instants compare by
seconds and then nanoseconds, as their parts do; paths and addresses have orders of their own.
-/

namespace Bindery

/-- The orders that the standard types have of their own. -/
def Value.standardOrders : List (String × (Value → Value → Ordering)) :=
  [(FilePath.path, FilePath.order), (Address.path, Address.order)]

/-- The order of values among the standard types. -/
def Value.standardOrder : Value → Value → Ordering := Value.compare fun name => standardOrders.lookup name

namespace Registry

/-- The codecs every standard registry has. -/
def standardCodecs : List Codec := [FilePath.codec, Address.codec, Duration.codec, Instant.codec]

/-- The types every standard registry has. -/
def standardTypes : List Ty :=
  [.scalar .unit, .scalar .bool, .scalar .char] ++ IntType.all.map Ty.int
    ++ [.scalar .f32, .scalar .f64, .string, .scalar .number]
    ++ [.dynamic .any, .dynamic .object, .dynamic .array]
    ++ [FilePath.type, Address.type, Duration.type, Instant.type]

/-- A registry without types and codecs. -/
def empty : Registry := {}

/-- The registry of the standard types and codecs. -/
def standard (Γ : Schema) : Registry :=
  standardTypes.foldl (register Γ) (standardCodecs.foldl (registerCodec Γ) empty)

end Registry
end Bindery
