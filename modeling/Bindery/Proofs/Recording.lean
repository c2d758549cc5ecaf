import Bindery.Proofs.Keys
import Bindery.Proofs.Walk
/-!
# Recorders

A recorder is a source with a log of what it hears: the turns of loops, the values that are asked for inside of
others, the members of records that a reading comes to, what is done to their instances, the tokens that are
discarded, and whether a bound was used up. A skip is quiet, as all of a reading is that is read through
`Reading.quiet`.
-/

namespace Bindery

variable {σ α : Type}

/-- A source, and what happened so far. -/
structure Recorder (σ : Type) where
  source : σ
  log : List (Event σ) := []

/-- A reading of which nothing is heard. -/
def Reading.quiet (r : Reading σ α) : Reading (Recorder σ) α := fun w =>
  match r w.source with
  | .ok a s => .ok a { w with source := s }
  | .error e s => .error e { w with source := s }

instance [TokenStream σ] : TokenStream (Recorder σ) where
  front w := TokenStream.front w.source
  advance w := { w with source := TokenStream.advance w.source }
  length w := TokenStream.length w.source

instance [TokenSource σ] : TokenSource (Recorder σ) where
  skip := Reading.quiet Reading.skip

instance : Listener (Recorder σ) where
  hear e w := { w with log := w.log ++ [e.map Recorder.source] }

/-- What happens when a value of a type is read from a source. -/
def Decode.events [TokenSource σ] (c : Context) (t : Ty) (s : σ) : List (Event σ) :=
  ((Decode.rootWithin c (TokenStream.length s + 1) t).run ({ source := s } : Recorder σ)).2.log

/-! ## Members -/

/-- The member that a reading comes to. -/
def Event.arrival? : Event σ → Option (Arrival σ)
  | arrival v => some v
  | _ => none

/-- The members that a reading came to, in order. -/
def arrivals (log : List (Event σ)) : List (Arrival σ) := log.filterMap Event.arrival?

theorem arrivals_append (new more : List (Event σ)) :
    arrivals (new ++ more) = arrivals new ++ arrivals more :=
  List.filterMap_append

/-- A recorder hears of a member, or of something else. -/
theorem arrivals_hear (e : Event (Recorder σ)) (w : Recorder σ) :
    arrivals (Listener.hear e w).log = arrivals w.log ++ (e.arrival?.map (·.map Recorder.source)).toList := by
  have hlog : arrivals (Listener.hear e w).log = arrivals w.log ++ arrivals [e.map Recorder.source] :=
    arrivals_append _ _
  rw [hlog]
  cases e <;> rfl

/-- The place of the value of the member. -/
def Arrival.place (v : Arrival σ) : Place := v.around.member v.record.name v.key

/-- What a reading fails with that does not go on at a member. -/
def Arrival.refusal (v : Arrival σ) : BindError := (BindError.unknownKey v.record.name v.key).at? v.place

/-- Whether the constructor has still to run. -/
def Assembly.isPending : Assembly → Bool
  | deferred _ _ _ => true
  | constructed _ => false

/-- A record that is no hybrid has no place for the member: no field goes by its key, nor does an argument if the
constructor has still to run. -/
def Arrival.Unknown (v : Arrival σ) : Prop :=
  v.record.hybrid.isNone ∧ (∀ f ∈ v.record.fields, ¬ f.GoesBy v.key) ∧
    (v.assembly.isPending → ∀ arg ∈ v.creator.args, ¬ arg.GoesBy v.key)

instance (v : Arrival σ) : Decidable v.Unknown := inferInstanceAs (Decidable (_ ∧ _))

theorem Assembly.argument?_none_iff (creator : Creator) (a : Assembly) (key : String) :
    a.argument? creator key = none ↔ (a.isPending → ∀ arg ∈ creator.args, ¬ arg.GoesBy key) := by
  cases a with
  | constructed v => simp [argument?, isPending]
  | deferred slots remaining pending =>
    rw [← creator.argIndex?_none_iff]
    unfold argument?
    cases hi : creator.argIndex? key with
    | none => simp
    | some i =>
      obtain ⟨arg, harg, -⟩ := Creator.argIndex?_goesBy hi
      simp [harg, isPending]

theorem Assembly.route_elsewhere_iff (r : Record) (creator : Creator) (a : Assembly) (key : String) :
    a.route r creator key = .elsewhere ↔
      (∀ f ∈ r.fields, ¬ f.GoesBy key) ∧ (a.isPending → ∀ arg ∈ creator.args, ¬ arg.GoesBy key) := by
  rw [← argument?_none_iff, ← r.fieldIndex?_none_iff]
  unfold route
  cases a.argument? creator key with
  | some p => simp
  | none =>
    cases hi : r.fieldIndex? key with
    | none => simp
    | some i =>
      obtain ⟨f, hf, -⟩ := Record.fieldIndex?_goesBy hi
      simp [hf]

theorem Arrival.unknown_iff (v : Arrival σ) :
    v.Unknown ↔ v.record.hybrid.isNone ∧ v.assembly.route v.record v.creator v.key = .elsewhere := by
  rw [Assembly.route_elsewhere_iff]
  rfl

end Bindery
