import Bindery.Error
/-!
# Emissions

An emission is what writing a value puts down: marks, each at the place of the value that asked
for it, and the error that cut the writing short, if one did. `Emission.andThen` goes on only
after an emission that was not cut short. A writer takes the marks in turn and stops at the first
one it refuses; the refusal is then an error at that mark's place.
-/

namespace Bindery

/-- Marks in order, and how writing ended. -/
structure Emission where
  marks : List (Place × Mark) := []
  failure : Option BindError := none

namespace Emission

/-- Nothing at all. -/
def nothing : Emission := {}

/-- One mark. -/
def mark (place : Place) (m : Mark) : Emission := { marks := [(place, m)] }

/-- One token. -/
def token (place : Place) (t : Token) : Emission := mark place (.token t)

/-- A failure before any mark. -/
def fail (e : BindError) : Emission := { failure := some e }

/-- One emission and then another, unless the first was cut short. -/
def andThen (a b : Emission) : Emission :=
  match a.failure with
  | some _ => a
  | none => { marks := a.marks ++ b.marks, failure := b.failure }

instance : Append Emission := ⟨andThen⟩

/-- Gives the failure a place. -/
def atPlace (place : Place) (a : Emission) : Emission :=
  { a with failure := a.failure.map (·.at? place) }

/-- Emissions with a separator between each two. -/
def separated (separator : Emission) : List Emission → Emission
  | [] => nothing
  | [a] => a
  | a :: rest => a ++ (separator ++ separated separator rest)

/-- The items of an array at `place`, each emitted at its own place. -/
def items (place : Place) (owner : String) (parts : List (Place → Emission)) : Emission :=
  separated (mark place .arrayComma)
    (parts.zipIdx.map fun p =>
      let child := place.item owner p.2
      (p.1 child).atPlace child)

/-- The members of an object at `place`: each its name and its value at its own place. -/
def members (place : Place) (owner : String) (parts : List (String × (Place → Emission))) :
    Emission :=
  separated (mark place .objectComma)
    (parts.map fun p =>
      let child := place.member owner p.1
      token place (.name p.1) ++ (p.2 child).atPlace child)

/-- An array. -/
def array (place : Place) (owner : String) (parts : List (Place → Emission)) : Emission :=
  token place .startArray ++ (items place owner parts ++ token place .endArray)

/-- An object. -/
def object (place : Place) (owner : String) (parts : List (String × (Place → Emission))) :
    Emission :=
  token place .startObject ++ (members place owner parts ++ token place .endObject)

/-! ## Writers -/

variable {σ : Type}

/-- Hands marks to a writer until it refuses one. -/
def feed (write : σ → Mark → Except BindError Unit × σ) :
    List (Place × Mark) → σ → Except BindError Unit × σ
  | [], s => (.ok (), s)
  | (place, m) :: rest, s =>
    match write s m with
    | (.ok (), s) => feed write rest s
    | (.error e, s) => (.error (e.at? place), s)

/-- Writes an emission: the writer's refusal comes first, then the emission's own failure. -/
def writeTo (write : σ → Mark → Except BindError Unit × σ) (a : Emission) (s : σ) :
    Except BindError Unit × σ :=
  match feed write a.marks s with
  | (.error e, s) => (.error e, s)
  | (.ok (), s) =>
    match a.failure with
    | some e => (.error e, s)
    | none => (.ok (), s)

/-- The tape that recording an emission leaves. -/
def tape (a : Emission) : List TapeEntry := a.marks.map fun m => .mark m.2

/-- How recording an emission ends. -/
def outcome (a : Emission) : Except BindError Unit :=
  match a.failure with
  | some e => .error e
  | none => .ok ()

end Emission
end Bindery
