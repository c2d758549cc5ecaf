import Bindery.Making
/-!
# Assembling a record

While a record is read its instance is either still to be made, from argument values collected
so far, or made already. An instance that can be made without arguments is there from the start.
Otherwise the constructor runs as soon as the last empty slot is filled, or at the end; field
values that came before it are then assigned in order of arrival.
-/

namespace Bindery

/-- Runs the positional constructor on whatever slots are filled, or the one without arguments
if there is no other. -/
def Creator.construct (c : Creator) (a : ArgSlots) : Making Value :=
  match c.withArgs, c.noArgs with
  | some f, _ => do
    Making.does (.made a)
    Making.lift (f a)
  | none, some v => do
    Making.does .madeEmpty
    return v
  | none, none => Making.lift (.error (.typeError c.owner.path .noUsableConstructor))

/-- The instance of a record that is being read. -/
inductive Assembly
  | deferred (slots : ArgSlots) (remaining : Nat) (pending : List (Nat × Value))
  | constructed (v : Value)

/-- Where the value of a key goes. -/
inductive Target
  | argument (position : Nat) (arg : Arg)
  | field (position : Nat) (field : Field)
  | elsewhere

namespace Assembly

variable (r : Record) (c : Creator)

/-- Before any argument comes. -/
def start : Making Assembly :=
  match c.noArgs with
  | some v => do
    Making.does .madeEmpty
    return .constructed v
  | none => return .deferred c.newSlots c.arity []

/-- Assigns the value of the field at a position. -/
def assign (target : Value) (p : Nat × Value) : Making Value :=
  match r.fields[p.1]? with
  | some f => do
    Making.does (.assigned p)
    return (← Making.lift (f.set target p.2)).2
  | none => return target

/-- The instance, made now if it is not there yet. -/
def finish : Assembly → Making Value
  | .constructed v => return v
  | .deferred slots _ pending => do
    let v ← c.construct slots
    pending.foldlM (assign r) v

/-- Makes the instance if no argument is missing. -/
def settle (a : Assembly) : Making Assembly :=
  match a with
  | .deferred _ 0 _ => return .constructed (← finish r c a)
  | _ => return a

/-- Before any key is read. -/
def opening : Making Assembly := do settle r c (← start c)

/-- The argument a key stands for, while arguments are collected. -/
def argument? (a : Assembly) (key : String) : Option (Nat × Arg) :=
  match a with
  | .deferred _ _ _ => (c.argIndex? key).bind fun i => c.args[i]?.map (i, ·)
  | .constructed _ => none

/-- Where the value of a key goes now: to an argument before a field. -/
def route (a : Assembly) (key : String) : Target :=
  match argument? c a key with
  | some (i, arg) => .argument i arg
  | none =>
    match (r.fieldIndex? key).bind fun i => r.fields[i]?.map (i, ·) with
    | some (i, f) => .field i f
    | none => .elsewhere

/-- Takes the value of an argument; the last one to come makes the instance. -/
def putArgument (a : Assembly) (i : Nat) (v : Value) : Making Assembly :=
  match a with
  | .deferred slots remaining pending => do
    let (wasEmpty, slots) := slots.put i v
    if wasEmpty then
      Making.does (.lowered remaining)
      settle r c (.deferred slots (remaining - 1) pending)
    else settle r c (.deferred slots remaining pending)
  | .constructed _ => return a

/-- Takes the value of a field: assigned if the instance is there, else kept for later. -/
def putField (a : Assembly) (i : Nat) (v : Value) : Making Assembly := do
  Making.does (.read (i, v))
  match a with
  | .constructed target => return .constructed (← assign r target (i, v))
  | .deferred slots remaining pending => return .deferred slots remaining (pending ++ [(i, v)])

end Assembly
end Bindery
