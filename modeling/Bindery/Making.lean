import Bindery.Record
/-!
# Making an instance

What is done to an instance while a record is read: a constructor runs on its arguments, values of
fields are assigned. `Making` is a computation that says on the way what it does, and that ends
with an answer or an error.
-/

namespace Bindery

/-- What is done to the instance of a record while it is read. -/
inductive Deed
  /-- The constructor without arguments runs. -/
  | madeEmpty
  /-- The positional constructor runs. -/
  | made (slots : ArgSlots)
  /-- The number of arguments still to come is lowered by one. -/
  | lowered (remaining : Nat)
  /-- The value of the field at a position is read. -/
  | read (p : Nat × Value)
  /-- A value is handed to the setter of the field at a position. -/
  | assigned (p : Nat × Value)

/-- What is done, and how it ends. -/
structure Making (α : Type) where
  deeds : List Deed
  outcome : Except BindError α

namespace Making

variable {α β : Type}

/-- Nothing is done. -/
def lift (x : Except BindError α) : Making α := ⟨[], x⟩

/-- One thing is done. -/
def does (d : Deed) : Making Unit := ⟨[d], .ok ()⟩

instance : Monad Making where
  pure a := lift (.ok a)
  bind x k :=
    match x.outcome with
    | .ok a => ⟨x.deeds ++ (k a).deeds, (k a).outcome⟩
    | .error e => ⟨x.deeds, .error e⟩

@[simp] theorem outcome_pure (a : α) : (pure a : Making α).outcome = .ok a := rfl

@[simp] theorem outcome_lift (x : Except BindError α) : (lift x).outcome = x := rfl

@[simp] theorem outcome_does (d : Deed) : (does d).outcome = .ok () := rfl

@[simp] theorem outcome_bind (x : Making α) (k : α → Making β) :
    (x >>= k).outcome = x.outcome >>= fun a => (k a).outcome := by
  simp only [bind]
  cases x.outcome <;> rfl

@[simp] theorem outcome_foldlM (f : β → α → Making β) (as : List α) :
    ∀ b : β, (as.foldlM f b).outcome = as.foldlM (fun b a => (f b a).outcome) b := by
  induction as with
  | nil => exact fun b => rfl
  | cons a as ih =>
    intro b
    rw [List.foldlM_cons, List.foldlM_cons, outcome_bind]
    exact congrArg _ (funext ih)

end Making
end Bindery
