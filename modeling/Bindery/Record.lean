import Bindery.KeyTable
import Bindery.Value
/-!
# Records

A record says how values of its type are made and what they show: fields in order of declaration,
a creator with a positional constructor, one without arguments, or both, and for a hybrid record
how a side object is installed. A schema is a list of records with the order in which sorted sets
keep values; a name that it does not list is that of a record without a constructor.
-/

namespace Bindery

/-- What a record value holds. -/
structure Instance where
  cells : List Value
  side : List (String × Node) := []

namespace Instance

/-- The instance as a value of a record. -/
def toValue (i : Instance) (record : String) : Value := .record record i.cells i.side

/-- The instance inside a value of a record. -/
def ofValue? (record : String) : Value → Option Instance
  | .record name cells side => if name = record then some ⟨cells, side⟩ else none
  | _ => none

/-- Replaces a cell. -/
def setCell (i : Instance) (cell : Nat) (v : Value) : Instance :=
  { i with cells := i.cells.set cell v }

end Instance

/-! ## Fields -/

/-- A declared property. It reads a cell of its owner's instances; `store` is its setter. -/
structure Field extends Names where
  type : Ty
  owner : String
  cell : Nat
  store : Option (Instance → Value → Instance)

namespace Field

/-- Whether values can be assigned. -/
def hasSetter (f : Field) : Bool := f.store.isSome

/-- What the field shows of a value; none unless the value is an instance of the owner. -/
def get? (f : Field) (v : Value) : Option Value :=
  (Instance.ofValue? f.owner v).bind (·.cells[f.cell]?)

/-- Assigns a value. The answer is whether there was a setter. -/
def set (f : Field) (target v : Value) : Except BindError (Bool × Value) :=
  match f.store with
  | none => .ok (false, target)
  | some store =>
    match Instance.ofValue? f.owner target with
    | none => .error (.typeError f.owner .foreignField)
    | some i => do
      let v ← Value.ofType f.type v
      return (true, (store i v).toValue f.owner)

end Field

/-! ## Constructors -/

/-- One positional argument of a constructor. -/
structure Arg extends Names where
  type : Ty

/-- The argument values collected for a constructor; a slot is empty until its argument comes. -/
structure ArgSlots where
  owner : String
  names : List String
  slots : List (Option Value)

namespace ArgSlots

/-- Empty slots. -/
def empty (owner : String) (args : List Arg) : ArgSlots :=
  { owner, names := args.map (·.name), slots := args.map fun _ => none }

/-- Whether a slot holds a value. -/
def isFilled (a : ArgSlots) (i : Nat) : Bool := (a.slots[i]?.join).isSome

/-- Fills a slot, replacing what it holds. The answer is whether the slot was empty before. -/
def put (a : ArgSlots) (i : Nat) (v : Value) : Bool × ArgSlots :=
  match a.slots[i]? with
  | none => (false, a)
  | some old => (old.isNone, { a with slots := a.slots.set i (some v) })

/-- The number of empty slots. -/
def missing (a : ArgSlots) : Nat := a.slots.countP (·.isNone)

/-- The argument in a slot, if it came. -/
def take (a : ArgSlots) (i : Nat) (type : Ty) : Except BindError (Option Value) :=
  match a.slots[i]?.join with
  | none => .ok none
  | some v => (Value.ofType type v).map some

/-- The argument in a slot, which must have come. -/
def require (a : ArgSlots) (i : Nat) (type : Ty) : Except BindError Value := do
  match ← a.take i type with
  | some v => return v
  | none => throw (.typeError a.owner (.missingArgument (a.names[i]?.getD "?")))

/-- The argument in a slot, or a default. -/
def takeOr (a : ArgSlots) (i : Nat) (type : Ty) (default : Value) : Except BindError Value := do
  return (← a.take i type).getD default

end ArgSlots

/-- How instances are made: by a constructor with arguments, by one without, or by either. -/
structure Creator where
  owner : Ty
  args : List Arg := []
  withArgs : Option (ArgSlots → Except BindError Value) := none
  noArgs : Option Value := none

namespace Creator

/-- The number of arguments. -/
def arity (c : Creator) : Nat := c.args.length

/-- The position of the argument a key stands for. -/
def argIndex? (c : Creator) (key : String) : Option Nat :=
  (KeyTable.ofNames (c.args.map (·.toNames))).find? key

/-- Empty slots for one construction. -/
def newSlots (c : Creator) : ArgSlots := ArgSlots.empty c.owner.path c.args

end Creator

/-! ## Side objects -/

/-- How a hybrid record takes the members it has no field for. -/
structure Hybrid where
  owner : String
  store : Instance → List (String × Node) → Instance

namespace Hybrid

/-- The side object of a value; none unless the value is an instance of the owner. -/
def side? (h : Hybrid) (v : Value) : Option (List (String × Node)) :=
  (Instance.ofValue? h.owner v).map (·.side)

/-- Gives a value its side object. -/
def install (h : Hybrid) (target : Value) (side : List (String × Node)) : Except BindError Value :=
  match Instance.ofValue? h.owner target with
  | none => .error (.typeError h.owner .foreignSideObject)
  | some i => .ok ((h.store i side).toValue h.owner)

end Hybrid

/-! ## Records and schemas -/

/-- The description of a record type. -/
structure Record where
  name : String
  fields : List Field := []
  creator : Option Creator := none
  hybrid : Option Hybrid := none

/-- What a record shows under a key. -/
inductive Property
  | field (v : Value)
  | side (n : Node)

namespace Record

/-- The position of the field a key stands for. -/
def fieldIndex? (r : Record) (key : String) : Option Nat :=
  (KeyTable.ofNames (r.fields.map (·.toNames))).find? key

/-- The field a key stands for. -/
def field? (r : Record) (key : String) : Option Field :=
  (r.fieldIndex? key).bind (r.fields[·]?)

/-- What is wrong with the record, if it cannot be read at all. -/
def check (r : Record) : Except BindError Unit :=
  match r.creator with
  | none => .error (.typeError r.name .noConstructor)
  | some c =>
    if c.withArgs.isNone && c.noArgs.isNone then .error (.typeError r.name .noUsableConstructor)
    else if r.fields.isEmpty && c.args.isEmpty && r.hybrid.isNone then
      .error (.typeError r.name .noAccessibleFields)
    else .ok ()

/-- The property of a value under a key: that of a field, else an entry of the side object. -/
def property? (r : Record) (v : Value) (key : String) : Option Property :=
  match r.field? key with
  | some f => (f.get? v).map .field
  | none => ((r.hybrid.bind (·.side? v)).bind (Entries.find? · key)).map .side

/-- The types of the fields, then those of the arguments. -/
def types (r : Record) : List Ty :=
  r.fields.map (·.type) ++ (r.creator.map fun c => c.args.map (·.type)).getD []

end Record

/-- The records of a world of types, and how the values of each type compare. -/
structure Schema where
  records : List Record
  order : Value → Value → Ordering := Value.compare fun _ => none

namespace Schema

/-- The record of a name. -/
def record (Γ : Schema) (name : String) : Record :=
  (Γ.records.find? (·.name == name)).getD { name }

/-- The types that a type is made of. -/
def dependencies (Γ : Schema) : Ty → List Ty
  | .option t | .seq _ t | .set _ t | .map _ t => [t]
  | .record name => (Γ.record name).types
  | .scalar _ | .enum _ _ | .dynamic _ | .foreign _ => []

/-- The classification of a type, given whether a codec is registered for it. -/
def classify (Γ : Schema) (t : Ty) (hasCodec : Bool) : Classification :=
  match t with
  | .dynamic _ => .dynamic
  | _ =>
    if hasCodec then .valueCodec
    else match t with
      | .record name =>
        let r := Γ.record name
        match r.check, r.hybrid with
        | .ok (), some _ => .hybrid
        | .ok (), none => .record
        | .error _, _ => .unrecognized
      | .option _ | .seq _ _ | .set _ _ | .map _ _ => .container
      | .scalar _ | .enum _ _ => .scalar
      | .dynamic _ => .dynamic
      | .foreign _ => .unrecognized

end Schema
end Bindery
