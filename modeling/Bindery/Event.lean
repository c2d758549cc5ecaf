import Bindery.Decode.Assembly
/-!
# Events

What happens in the course of a reading, and who hears of it. Most sources hear nothing.
-/

namespace Bindery

variable {σ τ : Type}

/-- A member of a record that a reading has come to, its name being read. -/
structure Arrival (σ : Type) where
  record : Record
  creator : Creator
  assembly : Assembly
  key : String
  /-- The place of the record. -/
  around : Place
  /-- The source behind the name. -/
  source : σ

/-- What happens in the course of a reading. -/
inductive Event (σ : Type)
  /-- A turn of a loop over members, if it does not fail. -/
  | turn (before after : σ)
  /-- Reading a value of type `whole` asks for a value of type `part`. -/
  | ask (whole : Ty) (start : σ) (part : Ty) (source : σ)
  | arrival (v : Arrival σ)
  /-- There are no more members, and the record is made of what was read. -/
  | finish (record : Record) (creator : Creator) (assembly : Assembly)
  /-- A token is discarded while containers of some number are open. -/
  | drop (kind : TokenKind) (depth : Nat) (before after : σ)
  /-- A bound is used up. -/
  | exhausted
  /-- Something is done to the instance of a record. -/
  | deed (d : Deed)

/-- The member, come to in another source. -/
def Arrival.map (f : σ → τ) (v : Arrival σ) : Arrival τ :=
  ⟨v.record, v.creator, v.assembly, v.key, v.around, f v.source⟩

/-- The event, happening in another source. -/
def Event.map (f : σ → τ) : Event σ → Event τ
  | turn before after => turn (f before) (f after)
  | ask whole start part source => ask whole (f start) part (f source)
  | arrival v => arrival (v.map f)
  | finish record creator assembly => finish record creator assembly
  | drop kind depth before after => drop kind depth (f before) (f after)
  | exhausted => exhausted
  | deed d => deed d

/-- A source that hears what happens while it is read. -/
class Listener (σ : Type) where
  hear : Event σ → σ → σ

/-- A source that hears nothing. -/
instance (priority := low) Listener.deaf : Listener σ := ⟨fun _ s => s⟩

end Bindery
