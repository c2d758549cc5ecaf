import Bindery.Context
import Bindery.Decode.Dynamic
/-!
# Reading values

`Decode.value` reads a value of a type. A dynamic type takes any document, a type with a codec
the wire node of its codec, and any other type is read by its structure. A null is a value of the
types that accept it; as a member of a record of another type it stands for an absent member.

Each level is one function that reads parts of a value by `part`; `Decode.value` ties them
together, its budget counting the levels as in `Decode.node`. Errors carry the place of the
innermost value they arose in. The source hears of the members that come, of the parts that are
asked for, and of what is done to instances.
-/

namespace Bindery.Decode

open Reading

variable {σ : Type}

section Stream
variable [TokenStream σ]

/-- Reads a scalar with the extractor of its exact type. -/
def scalar : ScalarType → Reading σ Value
  | .unit => do
    null
    return .unit
  | .bool => return .bool (← bool)
  | .int t => return .int t (← int t)
  | .f32 => return .f32 (← single)
  | .f64 => return .f64 (← double)
  | .char => do
    match (← string).toList with
    | c :: _ => return .char c
    | [] => throw (.invalidValue ScalarType.char.path .noCharacter)
  | .string => return .string (← string)
  | .number => return .number (← number)

/-- Reads a variant by its name. -/
def variant (enum : String) (variants : List String) : Reading σ Value := do
  let name ← string
  if variants.contains name then return .variant enum variants name
  else throw (.enumMismatch enum name)

/-- Reads a null as a value of a type. -/
def nullOf : Ty → Reading σ Value
  | .option payload => do
    null
    return .none payload
  | .scalar .unit => do
    null
    return .unit
  | t => throw (.typeError t.path .nullNotAccepted)

/-- Consumes a null that stands for an absent member of type `t`. The answer is whether there
was one. -/
def absent (c : Context) (t : Ty) : Reading σ Bool := do
  if (← peek) ≠ .null ∨ t.acceptsNull ∨ c.classify t = .valueCodec then return false
  null
  return true

variable [Listener σ]

/-- Reads the entries of an object, in order of arrival. -/
def entries (budget : Nat) (value : Place → Reading σ Value) (owner : String) (place : Place) :
    Reading σ (List (String × Value)) := do
  let entries ← object budget (fun (entries : Array (String × Value)) => do
    let key ← name
    return entries.push (key, ← value (place.member owner key))) #[]
  return entries.toList

/-- Reads the wire node of a codec, or a null in its place. -/
def wire (budget : Nat) (codec : Codec) (place : Place) : Reading σ Value := do
  let found ← peek
  if found = .null then
    null
    lift codec.decodeNull
  else if codec.wire.accepts found then
    lift (codec.decode (← node budget place))
  else throw (.tokenMismatch codec.wire.expected found)

/-- Reads a document of a dynamic type. -/
def dynamic (budget : Nat) (kind : DynamicKind) (place : Place) : Reading σ Value := do
  let start ← get
  let part := fun place => asked (.dynamic kind) start (.dynamic .any) (node budget place)
  match kind with
  | .any => return .node (← node (budget + 1) place)
  | .object => return .object (← nodeObject budget part place)
  | .array => return .array (← nodeArray budget part place)

end Stream

variable [TokenSource σ]

/-- Passes over a member that its record has no place for, or refuses it. -/
def unknown (c : Context) (type key : String) (child : Place) : Reading σ Unit :=
  match c.config.unknownKeys with
  | .skip => skip
  | .reject => atPlace child (throw (.unknownKey type key))

variable [Listener σ]

/-- Reads one member of a record into what has been read of it so far: its assembly and its side
object. -/
def recordMember (c : Context) (r : Record) (creator : Creator) (capture : Place → Reading σ Node)
    (part : Ty → Place → Reading σ Value) (place : Place)
    (state : Assembly × List (String × Node)) : Reading σ (Assembly × List (String × Node)) := do
  let (assembly, side) := state
  let key ← name
  let child := place.member r.name key
  tell (.arrival ⟨r, creator, assembly, key, place, ← get⟩)
  match assembly.route r creator key with
  | .argument i arg =>
    if ← absent c arg.type then return state
    let v ← part arg.type child
    return (← atPlace child (perform (assembly.putArgument r creator i v)), side)
  | .field i f =>
    if ← absent c f.type then return state
    let v ← part f.type child
    return (← atPlace child (perform (assembly.putField r i v)), side)
  | .elsewhere =>
    if r.hybrid.isSome then
      let n ← atPlace child (capture child)
      return (assembly, Entries.insert side key n)
    else
      unknown c r.name key child
      return state

/-- Reads a record, what is captured by `capture` and what is bound by `part`. -/
def record (c : Context) (r : Record) (budget : Nat) (capture : Place → Reading σ Node)
    (part : Ty → Place → Reading σ Value) (place : Place) : Reading σ Value := do
  match r.creator with
  | none => throw (.typeError r.name .noConstructor)
  | some creator =>
    let assembly ← perform (Assembly.opening r creator)
    let (assembly, side) ← object budget (recordMember c r creator capture part place) (assembly, [])
    tell (.finish r creator assembly)
    let v ← perform (assembly.finish r creator)
    match r.hybrid with
    | some h => lift (h.install v side)
    | none => return v

/-- Reads a value of a type as its strategy asks for; a value that has a structure, unless it is
null, by `form`. -/
def byStrategy (c : Context) (budget : Nat) (place : Place) (t : Ty) (form : Reading σ Value) :
    Reading σ Value :=
  match c.strategy t with
  | .dynamic kind => dynamic budget kind place
  | .codec codec => wire (budget + 1) codec place
  | .refuse e => throw e
  | .byStructure => do
    if (← peek) = .null then nullOf t
    else form

/-- Reads a value of a type, its parts by `part`. -/
def level (c : Context) (budget : Nat) (part : Ty → Place → Reading σ Value) (place : Place)
    (t : Ty) : Reading σ Value := do
  let start ← get
  let inside := fun u place => asked t start u (part u place)
  let capture := fun place => asked t start (.dynamic .any) (node budget place)
  byStrategy c budget place t <|
    match t with
    | .scalar s => scalar s
    | .enum name variants => variant name variants
    | .option payload => do
      let v ← asked (.option payload) start payload (level c budget part place payload)
      lift (Value.wrapSome payload v)
    | .seq kind item => do
      let vs ← array budget (inside item) (Ty.seq kind item).path place
      lift (Value.buildSeq kind item vs)
    | .set keeping item => do
      let vs ← array budget (inside item) (Ty.set keeping item).path place
      lift (Value.buildSet c.schema.order keeping item vs)
    | .map keeping val => do
      let es ← entries budget (inside val) (Ty.map keeping val).path place
      lift (Value.buildMap keeping val es)
    | .dynamic kind => dynamic budget kind place
    | .record name => record c (c.schema.record name) budget capture inside place
    | .foreign name => throw (c.refusal (.foreign name))

/-- Reads a value of a type at a place. -/
def value (c : Context) : Nat → Ty → Place → Reading σ Value
  | 0, _, _ => spent
  | budget + 1, t, place => atPlace place (level c budget (value c budget) place t)

/-- Reads a value of a type from the root of a document, within a budget. -/
def rootWithin (c : Context) (budget : Nat) (t : Ty) : Reading σ Value := do
  let v ← value c budget t (Place.root c.config.tracking)
  lift (Value.ofType t v)

/-- Reads a value of a type from the root of a document. -/
def root (c : Context) (t : Ty) : Reading σ Value := do
  rootWithin c (TokenStream.length (← get) + 1) t

end Bindery.Decode
