import Bindery.Config
import Bindery.Registry
/-!
# Contexts

What reading and writing depend on: a schema, a registry and a configuration. Both engines ask a
context for the codec of a type and agree on when there is one.
-/

namespace Bindery

/-- A schema, a registry over it, and a configuration. -/
structure Context where
  schema : Schema
  registry : Registry
  config : Config := {}

namespace Context

/-- The classification of a type. -/
def classify (c : Context) (t : Ty) : Classification := c.registry.classify c.schema t

/-- Why a type cannot be read. -/
def refusal (c : Context) (t : Ty) : BindError :=
  match t with
  | .record name =>
    match (c.schema.record name).check with
    | .error e => e
    | .ok () => .typeError name .unrecognizedRecord
  | .foreign name => .typeError name .noCodec
  | t => .typeError t.path .unrecognizedType

/-- How values of a type are read. -/
inductive Strategy
  | dynamic (kind : DynamicKind)
  | codec (codec : Codec)
  | byStructure
  | refuse (e : BindError)

/-- The way to read values of a type, by its classification. -/
def strategy (c : Context) (t : Ty) : Strategy :=
  match c.classify t with
  | .dynamic =>
    match t with
    | .dynamic kind => .dynamic kind
    | _ => .byStructure
  | .valueCodec =>
    match c.registry.codec? t with
    | some codec => .codec codec
    | none => .byStructure
  | .unrecognized => .refuse (c.refusal t)
  | _ => .byStructure

/-- The codec that values of a type are written with. -/
def codecFor? (c : Context) (t : Ty) : Option Codec :=
  match t with
  | .dynamic _ => none
  | t => c.registry.codec? t

end Context
end Bindery
