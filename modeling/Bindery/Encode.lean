import Bindery.Context
import Bindery.Emission
/-!
# Writing values

`Encode.value` is the emission of a value: the node of its codec if its type has one, else the
value by its form. A record writes its fields in order of declaration and then the entries of
its side object whose keys stand for no field.
-/

namespace Bindery.Encode

mutual

/-- The emission of a node. -/
def node : Node → Place → Emission
  | .null => fun place => .token place .null
  | .bool b => fun place => .token place (.bool b)
  | .number n => fun place => .token place (.number n)
  | .string s => fun place => .token place (.string s)
  | .array items => fun place => .array place DynamicKind.array.path (nodeItems items)
  | .object entries => fun place => .object place DynamicKind.object.path (nodeEntries entries)

/-- The emissions of the items of an array. -/
def nodeItems : List Node → List (Place → Emission)
  | [] => []
  | n :: rest => node n :: nodeItems rest

/-- The emissions of the entries of an object. -/
def nodeEntries : List (String × Node) → List (String × (Place → Emission))
  | [] => []
  | (k, n) :: rest => (k, node n) :: nodeEntries rest

end

/-- The entries of a side object that are written: those whose key stands for no field. -/
def sideEntries (r : Record) (side : List (String × Node)) : List (String × Node) :=
  side.filter fun e => (r.fieldIndex? e.1).isNone

/-- The emission of an instance of a record whose cells have the emissions `cells`. A field that
shows nothing of the instance ends the writing. -/
def record (r : Record) (instanceOf : String) (cells : List (Place → Emission))
    (side : List (String × Node)) (place : Place) : Emission :=
  let shown (f : Field) : Option (String × (Place → Emission)) :=
    if f.owner = instanceOf then cells[f.cell]?.map (f.name, ·) else none
  let side :=
    match r.hybrid with
    | some h => if h.owner = instanceOf then sideEntries r side else []
    | none => []
  let front := (r.fields.map shown).takeWhile (·.isSome)
  let opening := Emission.token place .startObject
  if front.length = r.fields.length then
    opening ++ (Emission.members place r.name (front.filterMap id ++ nodeEntries side)
      ++ Emission.token place .endObject)
  else
    opening ++ (Emission.members place r.name (front.filterMap id)
      ++ Emission.fail (.typeError r.name .foreignField))

/-- The emission of a scalar number. -/
def number (n : Number) (place : Place) : Emission := .token place (.number n)

/-- A value's emission by its codec, if its type has one, else by its form. -/
def byCodec (c : Context) (v : Value) (byForm : Place → Emission) (place : Place) : Emission :=
  match c.codecFor? v.ty with
  | some codec =>
    match codec.encode v with
    | .ok wire => node wire place
    | .error e => .fail e
  | none => byForm place

mutual

/-- The emission of a value, but for the place of its own failure. -/
def form (c : Context) : Value → Place → Emission
  | .unit => byCodec c .unit fun place => .token place .null
  | .bool b => byCodec c (.bool b) fun place => .token place (.bool b)
  | .char x => byCodec c (.char x) fun place => .token place (.string (String.singleton x))
  | .int t i => byCodec c (.int t i) (number (.ofInt i))
  | .f32 x => byCodec c (.f32 x) (number (.float x.widen))
  | .f64 x => byCodec c (.f64 x) (number (.float x))
  | .string s => byCodec c (.string s) fun place => .token place (.string s)
  | .number n => byCodec c (.number n) (number n)
  | .variant e vs name =>
    byCodec c (.variant e vs name) fun place => .token place (.string name)
  | .none payload => byCodec c (.none payload) fun place => .token place .null
  | .some v => byCodec c (.some v) (form c v)
  | .seq kind item vs =>
    byCodec c (.seq kind item vs) fun place =>
      .array place (Ty.seq kind item).path (forms c vs)
  | .set keeping item vs =>
    byCodec c (.set keeping item vs) fun place =>
      .array place (Ty.set keeping item).path (forms c vs)
  | .map keeping val es =>
    byCodec c (.map keeping val es) fun place =>
      .object place (Ty.map keeping val).path (entryForms c es)
  | .node n => node n
  | .object es => node (.object es)
  | .array ns => node (.array ns)
  | .record name cells side =>
    byCodec c (.record name cells side)
      (record (c.schema.record name) name (forms c cells) side)
  | .foreign name parts =>
    byCodec c (.foreign name parts) fun _ => .fail (.unsupportedType name)

/-- The emissions of values. -/
def forms (c : Context) : List Value → List (Place → Emission)
  | [] => []
  | v :: rest => form c v :: forms c rest

/-- The emissions of entries. -/
def entryForms (c : Context) : List (String × Value) → List (String × (Place → Emission))
  | [] => []
  | (k, v) :: rest => (k, form c v) :: entryForms c rest

end

/-- The emission of a value from the root of a document. -/
def root (c : Context) (v : Value) : Emission :=
  let place := Place.root c.config.tracking
  (form c v place).atPlace place

end Bindery.Encode
