import Bindery.Proofs.Construction
import Bindery.Proofs.Outcomes
/-!
# How an assembly goes on

While a record is read there is a slot for each argument, as many are empty as arguments remain, and what is kept
for later is for fields that there are; and the instance is of the type of the record once it is there
(`Assembly.Sound`). Each step of an assembly keeps this, and fails only with what constructors fail with or with faults
of types and of values.
-/

namespace Bindery

namespace ArgSlots

theorem length_put (a : ArgSlots) (i : Nat) (v : Value) : (a.put i v).2.slots.length = a.slots.length := by
  simp [put_snd]

end ArgSlots

namespace Assembly

/-- There is a slot for each argument, as many are empty as arguments remain, at least one, and what is kept for
later is for fields that there are. -/
def InOrder (r : Record) (creator : Creator) : Assembly → Prop
  | constructed _ => True
  | deferred slots remaining pending =>
    slots.slots.length = creator.arity ∧ remaining = slots.missing ∧ 0 < remaining ∧
      ∀ p ∈ pending, p.1 < r.fields.length

/-- An instance that is there is of such a type. -/
def Made (T : Ty → Prop) : Assembly → Prop
  | constructed v => T v.ty
  | deferred _ _ _ => True

/-- What holds of the assembly of a record whenever a member comes. -/
structure Sound (T : Ty → Prop) (r : Record) (creator : Creator) (a : Assembly) : Prop where
  made : a.Made T
  inOrder : a.InOrder r creator

theorem field_of_route {r : Record} {creator : Creator} {a : Assembly} {key : String} {i : Nat} {f : Field}
    (h : a.route r creator key = .field i f) : r.fields[i]? = some f := by
  unfold route at h
  split at h
  · cases h
  · split at h
    · next hfield =>
      cases h
      obtain ⟨j, -, hj⟩ := Option.bind_eq_some_iff.1 hfield
      obtain ⟨f', hf', hpair⟩ := Option.map_eq_some_iff.1 hj
      cases hpair
      exact hf'
    · cases h

theorem field_lt {r : Record} {creator : Creator} {a : Assembly} {key : String} {i : Nat} {f : Field}
    (h : a.route r creator key = .field i f) : i < r.fields.length :=
  (List.getElem?_eq_some_iff.1 (field_of_route h)).1

/-! ## Steps -/

section Steps
variable {T : Ty → Prop} {E : BindError → Prop} {r : Record} {creator : Creator}
variable (hE : ∀ e : BindError, e.IsPlain → E e)
include hE

theorem assign_ends (r : Record) (target : Value) (p : Nat × Value) :
    Ends (fun v => v.ty = target.ty) E (assign r target p).outcome := by
  unfold assign
  split
  · simp only [Making.outcome_bind, Making.outcome_lift]
    exact (Field.set_ends hE _ target p.2).bind fun _ h => h
  · rfl

theorem putField_ends {a : Assembly} (ha : a.Sound T r creator) {i : Nat} (hi : i < r.fields.length) (v : Value) :
    Ends (Sound T r creator) E (a.putField r i v).outcome := by
  cases a with
  | constructed target =>
    have hassign : Ends (Sound T r creator) E
        ((assign r target (i, v)).outcome >>= fun w => .ok (.constructed w)) := by
      refine (assign_ends hE r target (i, v)).bind fun w hw => ⟨?_, trivial⟩
      change T w.ty
      rw [hw]
      exact ha.made
    simpa only [putField, Making.outcome_bind, Making.outcome_does, Making.outcome_pure, ok_bind] using hassign
  | deferred slots remaining pending =>
    obtain ⟨hslots, hmissing, hpositive, hpending⟩ := ha.inOrder
    refine ⟨trivial, hslots, hmissing, hpositive, ?_⟩
    exact List.forall_mem_append.2 ⟨hpending, List.forall_mem_singleton.2 hi⟩

variable (hmakes : creator.Makes T E)
include hmakes

theorem construct_ends (slots : ArgSlots) : Ends (fun v => T v.ty) E (creator.construct slots).outcome := by
  unfold Creator.construct
  split
  · next hf => exact hmakes.withArgs hf slots
  · next hv => exact hmakes.noArgs hv
  · exact hE _ ⟨trivial, fun _ => rfl⟩

theorem finish_ends {a : Assembly} (ha : a.Made T) : Ends (fun v => T v.ty) E (a.finish r creator).outcome := by
  cases a with
  | constructed v => exact ha
  | deferred slots remaining pending =>
    simp only [finish, Making.outcome_bind, Making.outcome_foldlM]
    refine (construct_ends hE hmakes slots).bind fun v hv => Ends.foldlM ?_ hv
    intro v p _ hv
    refine (assign_ends hE r v p).mono (fun w hw => ?_) fun _ he => he
    rw [hw]
    exact hv

/-- Slots, and as many arguments to come as are empty: none, or the assembly is in order. -/
theorem settle_ends {slots : ArgSlots} {remaining : Nat} {pending : List (Nat × Value)}
    (hslots : slots.slots.length = creator.arity) (hmissing : remaining = slots.missing)
    (hpending : ∀ p ∈ pending, p.1 < r.fields.length) :
    Ends (Sound T r creator) E (settle r creator (.deferred slots remaining pending)).outcome := by
  cases remaining with
  | zero =>
    simp only [settle, Making.outcome_bind, Making.outcome_pure]
    exact (finish_ends hE hmakes (a := .deferred slots 0 pending) trivial).bind fun v hv => ⟨hv, trivial⟩
  | succ remaining => exact ⟨trivial, hslots, hmissing, Nat.succ_pos remaining, hpending⟩

theorem opening_ends : Ends (Sound T r creator) E (opening r creator).outcome := by
  unfold opening start
  cases hnone : creator.noArgs with
  | some v => exact ⟨hmakes.noArgs hnone, trivial⟩
  | none =>
    refine settle_ends hE hmakes ?_ (Record.newSlots_missing creator).symm (by simp)
    simp [Creator.newSlots, ArgSlots.empty, Creator.arity]

theorem putArgument_ends {a : Assembly} (ha : a.Sound T r creator) (i : Nat) (v : Value) :
    Ends (Sound T r creator) E (a.putArgument r creator i v).outcome := by
  cases a with
  | constructed target => exact ha
  | deferred slots remaining pending =>
    obtain ⟨hslots, rfl, -, hpending⟩ := ha.inOrder
    have hlength := (slots.length_put i v).trans hslots
    have hmissing := slots.missing_put i v
    unfold putArgument
    dsimp only
    split
    · next hempty =>
      rw [if_pos hempty] at hmissing
      exact settle_ends hE hmakes hlength hmissing.symm hpending
    · next hfull =>
      rw [if_neg hfull] at hmissing
      exact settle_ends hE hmakes hlength hmissing.symm hpending

end Steps
end Assembly
end Bindery
