import Bindery.Binder
/-!
# How making a value ends

`Ends Q E x` says that `Q` holds of the answer of `x`, or `E` of its error. Values are made, fields assigned and
records assembled by steps that keep types and that add only faults of types and of values to whatever
constructors fail with; these are the lemmas for each of these steps.
-/

namespace Bindery

variable {α β : Type} {P Q : α → Prop} {R : β → Prop} {E F : BindError → Prop}

/-- `Q` holds of the answer, or `E` of the error. -/
def Ends (Q : α → Prop) (E : BindError → Prop) : Except BindError α → Prop
  | .ok a => Q a
  | .error e => E e

/-- A fault of a type or of a value. -/
def BindError.IsFault : BindError → Prop
  | .typeError _ _ | .invalidValue _ _ => True
  | _ => False

/-- An error that can be put into words, however numbers are spelled. -/
def BindError.Worded (e : BindError) : Prop := ∀ numerals, (e.message? numerals).isSome

/-- A fault that can be put into words. -/
structure BindError.IsPlain (e : BindError) : Prop where
  fault : e.IsFault
  worded : e.Worded

namespace Ends

theorem failure {x : Except BindError α} (h : Ends Q E x) {e : BindError} (hx : x = .error e) : E e := by
  rw [hx] at h
  exact h

theorem mono {x : Except BindError α} (h : Ends P E x) (hQ : ∀ a, P a → Q a) (hF : ∀ e, E e → F e) : Ends Q F x := by
  cases x with
  | ok a => exact hQ a h
  | error e => exact hF e h

theorem of_forall (x : Except BindError α) (hE : ∀ e, E e) : Ends (fun _ => True) E x := by
  cases x with
  | ok a => trivial
  | error e => exact hE e

theorem bind {x : Except BindError α} {k : α → Except BindError β} (h : Ends Q E x)
    (hk : ∀ a, Q a → Ends R E (k a)) : Ends R E (x >>= k) := by
  cases x with
  | ok a => exact hk a h
  | error e => exact h

theorem map {x : Except BindError α} {f : α → β} (h : Ends Q E x) (hf : ∀ a, Q a → R (f a)) : Ends R E (x.map f) := by
  cases x with
  | ok a => exact hf a h
  | error e => exact h

theorem mapM {f : α → Except BindError β} {as : List α} (h : ∀ a, Ends R E (f a)) :
    Ends (fun _ => True) E (as.mapM f) := by
  induction as with
  | nil => trivial
  | cons a as ih =>
    rw [List.mapM_cons]
    exact (h a).bind fun _ _ => ih.bind fun _ _ => trivial

/-- A fold over a list, with what holds of its state after each part of the list. -/
theorem foldlM_split {I : List α → β → Prop} {f : β → α → Except BindError β} {as : List α}
    (h : ∀ front a rest b, as = front ++ a :: rest → I front b → Ends (I (front ++ [a])) E (f b a)) {b : β}
    (hb : I [] b) : Ends (I as) E (as.foldlM f b) := by
  suffices hrest : ∀ rest front b, as = front ++ rest → I front b → Ends (I as) E (rest.foldlM f b) from
    hrest as [] b rfl hb
  intro rest
  induction rest with
  | nil =>
    intro front b has hfront
    rw [has, List.append_nil]
    exact hfront
  | cons a rest ih =>
    intro front b has hfront
    rw [List.foldlM_cons]
    apply (h front a rest b has hfront).bind
    intro b' hb'
    exact ih (front ++ [a]) b' (by simp [has]) hb'

/-- What every turn of a fold keeps holds at its end. -/
theorem foldlM {f : β → α → Except BindError β} {as : List α} (h : ∀ b, ∀ a ∈ as, R b → Ends R E (f b a)) {b : β}
    (hb : R b) : Ends R E (as.foldlM f b) := by
  apply foldlM_split (I := fun _ => R) _ hb
  intro front a rest b has hb
  exact h b a (by simp [has]) hb

end Ends

/-! ## Values -/

theorem Instance.ty_of_ofValue? {name : String} {v : Value} {i : Instance} (h : ofValue? name v = some i) :
    v.ty = .record name := by
  unfold ofValue? at h
  split at h
  · split at h
    · next hname => exact congrArg Ty.record hname
    · cases h
  · cases h

section Values
variable (hE : ∀ e : BindError, e.IsPlain → E e)
include hE

theorem Value.ofType_ends (t : Ty) (v : Value) : Ends (fun w => w.ty = t) E (ofType t v) := by
  unfold ofType
  split
  · next h => exact h
  · exact hE _ ⟨trivial, fun _ => rfl⟩

theorem Value.wrapSome_ends (payload : Ty) (v : Value) :
    Ends (fun w => w.ty = .option payload) E (wrapSome payload v) :=
  (ofType_ends hE payload v).bind fun _ h => congrArg Ty.option h

theorem Value.buildSeq_ends (kind : SeqKind) (item : Ty) (vs : List Value) :
    Ends (fun w => w.ty = .seq kind item) E (buildSeq kind item vs) := by
  refine (Ends.mapM (ofType_ends hE item)).bind fun ws _ => ?_
  cases kind with
  | fixed n =>
    dsimp only
    split
    · rfl
    · exact hE _ ⟨trivial, fun _ => rfl⟩
  | vec | deque | boxed => rfl

theorem Value.buildSet_ends (order : Value → Value → Ordering) (keeping : Keeping) (item : Ty) (vs : List Value) :
    Ends (fun w => w.ty = .set keeping item) E (buildSet order keeping item vs) :=
  (Ends.mapM (ofType_ends hE item)).bind fun _ _ => rfl

theorem Value.buildMap_ends (keeping : Keeping) (val : Ty) (es : List (String × Value)) :
    Ends (fun w => w.ty = .map keeping val) E (buildMap keeping val es) := by
  have hentry : ∀ e : String × Value, Ends (fun _ => True) E (do return (e.1, ← ofType val e.2)) := fun e =>
    (ofType_ends hE val e.2).bind fun _ _ => trivial
  exact (Ends.mapM hentry).bind fun _ _ => rfl

/-! ## Records -/

/-- A setter, if there is one, keeps the type of its target. -/
theorem Field.set_ends (f : Field) (target v : Value) :
    Ends (fun answer => answer.2.ty = target.ty) E (f.set target v) := by
  unfold set
  split
  · rfl
  · split
    · exact hE _ ⟨trivial, fun _ => rfl⟩
    · next hi => exact (Value.ofType_ends hE f.type v).bind fun _ _ => (Instance.ty_of_ofValue? hi).symm

theorem Hybrid.install_ends (h : Hybrid) (target : Value) (side : List (String × Node)) :
    Ends (fun v => v.ty = target.ty) E (h.install target side) := by
  unfold install
  split
  · exact hE _ ⟨trivial, fun _ => rfl⟩
  · next hi => exact (Instance.ty_of_ofValue? hi).symm

/-- What constructors ask of their slots. -/
theorem ArgSlots.take_ends (a : ArgSlots) (i : Nat) (t : Ty) :
    Ends (fun o => ∀ v ∈ o, v.ty = t) E (a.take i t) := by
  unfold take
  split
  · exact nofun
  · next v _ =>
    apply (Value.ofType_ends hE t v).map
    rintro w hw _ ⟨⟩
    exact hw

theorem ArgSlots.takeOr_ends (a : ArgSlots) (i : Nat) (t : Ty) (default : Value) (hdefault : default.ty = t) :
    Ends (fun v => v.ty = t) E (a.takeOr i t default) := by
  apply (take_ends hE a i t).bind
  intro o ho
  cases o with
  | none => exact hdefault
  | some v => exact ho v rfl

theorem Record.check_ends (r : Record) : Ends (fun _ => True) E r.check := by
  unfold check
  split
  · exact hE _ ⟨trivial, fun _ => rfl⟩
  · split
    · exact hE _ ⟨trivial, fun _ => rfl⟩
    · split
      · exact hE _ ⟨trivial, fun _ => rfl⟩
      · trivial

end Values

/-- What constructors make is of a type that `T` holds of, and `E` holds of what they fail with. -/
structure Creator.Makes (T : Ty → Prop) (E : BindError → Prop) (creator : Creator) : Prop where
  withArgs : ∀ {f}, creator.withArgs = some f → ∀ slots, Ends (fun v => T v.ty) E (f slots)
  noArgs : ∀ {v}, creator.noArgs = some v → T v.ty

/-- A record that can be made is declared. -/
theorem Schema.declared {Γ : Schema} {name : String} {creator : Creator} (h : (Γ.record name).creator = some creator) :
    Γ.record name ∈ Γ.records ∧ (Γ.record name).name = name := by
  unfold record at h ⊢
  cases hfind : Γ.records.find? (·.name == name) with
  | none =>
    rw [hfind] at h
    cases h
  | some r =>
    have hname := List.find?_some hfind
    exact ⟨List.mem_of_find?_eq_some hfind, eq_of_beq hname⟩

/-! ## Strategies -/

namespace Context

/-- A strategy refuses a type with a fault that can be put into words. -/
theorem strategy_refuse {c : Context} {t : Ty} {e : BindError} (h : c.strategy t = .refuse e) : e.IsPlain := by
  have hrefusal : (c.refusal t).IsPlain := by
    unfold refusal
    split
    · split
      · next hcheck => exact (Record.check_ends (fun _ h => h) _).failure hcheck
      · exact ⟨trivial, fun _ => rfl⟩
    · exact ⟨trivial, fun _ => rfl⟩
    · exact ⟨trivial, fun _ => rfl⟩
  unfold strategy at h
  split at h
  · split at h <;> cases h
  · split at h <;> cases h
  · cases h
    exact hrefusal
  · cases h

/-- Only dynamic types are read as documents. -/
theorem strategy_document {c : Context} {t : Ty} {kind : DynamicKind} (h : c.strategy t = .dynamic kind) :
    t = .dynamic kind := by
  unfold strategy at h
  split at h
  · split at h <;> cases h
    rfl
  · split at h <;> cases h
  · cases h
  · cases h

/-- A codec is chosen for a type only if it is registered for it. -/
theorem strategy_registered {c : Context} {t : Ty} {codec : Codec} (h : c.strategy t = .codec codec) :
    c.registry.codec? t = some codec := by
  unfold strategy at h
  split at h
  · split at h <;> cases h
  · split at h
    · next hcodec =>
      cases h
      exact hcodec
    · cases h
  · cases h
  · cases h

end Context
end Bindery
