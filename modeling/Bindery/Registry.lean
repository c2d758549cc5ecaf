import Bindery.Codec
import Bindery.Record
import Bindery.TypeMap
/-!
# Registries

A registry keeps the classification of the types registered with it and the codec of each type
that has one. Registering a type registers what it is made of, too. A codec may come before or
after its type: `Registry.classify` answers the same either way.
-/

namespace Bindery

/-- The registered types with their classifications, and the codecs. -/
structure Registry where
  types : TypeMap Classification := {}
  codecs : TypeMap Codec := {}

namespace Registry

/-- The classification of a type, as registered or, if it is not, as it would be. -/
def classify (Γ : Schema) (r : Registry) (t : Ty) : Classification :=
  (r.types.find? t).getD (Γ.classify t (r.codecs.contains t))

/-- Registers one type alone. The answer is whether it is new. -/
def registerOne (Γ : Schema) (r : Registry) (t : Ty) : Bool × Registry :=
  let (new, types) := r.types.tryInsert t fun _ => r.classify Γ t
  (new, { r with types })

/-- Registers pending types with all that they are made of; `budget` bounds the number of types
taken up. A type that is registered already is not followed further. -/
def registerPending (Γ : Schema) : Nat → List Ty → Registry → Registry
  | 0, _, r => r
  | _, [], r => r
  | budget + 1, t :: pending, r =>
    match r.registerOne Γ t with
    | (true, r) => registerPending Γ budget (Γ.dependencies t ++ pending) r
    | (false, r) => registerPending Γ budget pending r

end Registry

/-- The types inside a type, itself included. -/
def Ty.parts : Ty → List Ty
  | .option t => .option t :: t.parts
  | .seq k t => .seq k t :: t.parts
  | .set k t => .set k t :: t.parts
  | .map k t => .map k t :: t.parts
  | t => [t]

/-- All types that can be met from a type: its own parts and those of every record. -/
def Schema.typesFrom (Γ : Schema) (t : Ty) : List Ty :=
  t.parts ++ Γ.records.flatMap fun r => r.types.flatMap Ty.parts

namespace Registry

/-- Enough to take up every type that can be met, each at most once for each mention. -/
def registrationBudget (Γ : Schema) (t : Ty) : Nat :=
  (Γ.typesFrom t).foldr (fun u n => 1 + (Γ.dependencies u).length + n) 1

/-- Registers a type and all that it is made of. -/
def register (Γ : Schema) (r : Registry) (t : Ty) : Registry :=
  r.registerPending Γ (registrationBudget Γ t) [t]

/-- Registers a codec in the place of any other for its type, and reclassifies the type. -/
def registerCodec (Γ : Schema) (r : Registry) (c : Codec) : Registry :=
  { codecs := r.codecs.insert c.type c
    types := r.types.modify c.type fun _ => Γ.classify c.type true }

/-- The codec of a type. -/
def codec? (r : Registry) (t : Ty) : Option Codec := r.codecs.find? t

/-- Whether a type is registered. -/
def contains (r : Registry) (t : Ty) : Bool := r.types.contains t

/-- The registered type with a full name. -/
def typeWithPath? (r : Registry) (path : String) : Option Ty :=
  r.types.types.reverse.find? (·.path == path)

/-- Whether a type is registered and read field by field. -/
def hasRecord (r : Registry) (t : Ty) : Bool :=
  ((r.types.find? t).map (·.isRecord)).getD false

/-- The field of a registered record that a key stands for. -/
def field? (Γ : Schema) (r : Registry) (t : Ty) (key : String) : Option Field :=
  match t with
  | .record name => if r.hasRecord t then (Γ.record name).field? key else none
  | _ => none

end Registry
end Bindery
