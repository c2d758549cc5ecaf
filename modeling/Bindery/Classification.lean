/-!
# Classifications

The classification of a type settles which way its values are read and written. It depends on
the kind of the type and on whether a codec is known for it.
-/

namespace Bindery

/-- How the values of a type are read and written. -/
inductive Classification
  | dynamic
  | valueCodec
  | record
  | hybrid
  | container
  | scalar
  | unrecognized
  deriving DecidableEq

namespace Classification

/-- The word for a classification. -/
def text : Classification → String
  | dynamic => "Dynamic"
  | valueCodec => "ValueCodec"
  | record => "Pojo"
  | hybrid => "Hybrid"
  | container => "Container"
  | scalar => "Scalar"
  | unrecognized => "Unrecognized"

/-- Whether values are read and written field by field. -/
def isRecord : Classification → Bool
  | record | hybrid => true
  | _ => false

end Classification
end Bindery
