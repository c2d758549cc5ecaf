import Bindery.Proofs.Outcomes
import Bindery.Proofs.Walk
/-!
# Two readings in accord

`Accords G P F Q r r'` speaks of a reading `r` from one source beside a reading `r'` from another. From sources in `P`
both succeed with the same answer, which `Q` holds of, or both fail, as `F` says. The second one may also stop
early, while the first one goes on; then `G` says what it has stopped with, whatever becomes of the first one.
There is one rule for each way in which readings are put together.
-/

namespace Bindery

open TokenStream (front advance)
open EStateM (Result)

variable {σ τ α β : Type}

/-- The second of two sources: it is still read, or the reading has stopped there. -/
inductive Side (τ : Type)
  | reading (t : τ)
  | stopped (e : BindError) (t : τ)

namespace Side

/-- Where the source is. -/
def state : Side τ → τ
  | reading t | stopped _ t => t

/-- The source, if it is still read, a step further on. -/
def step (f : τ → τ) : Side τ → Side τ
  | reading t => reading (f t)
  | stopped e t => stopped e t

end Side

/-- What has come of two readings that began together. -/
inductive Ended (G : σ → BindError → τ → Prop) (F : BindError → σ → BindError → τ → Prop)
    (Q : α → σ → Side τ → Prop) : Result BindError σ α → Result BindError τ α → Prop
  | both {a s t} (h : Q a s (.reading t)) : Ended G F Q (.ok a s) (.ok a t)
  | parted {a s e t} (h : Q a s (.stopped e t)) : Ended G F Q (.ok a s) (.error e t)
  | failed {e s e' t} (h : F e s e' t) : Ended G F Q (.error e s) (.error e' t)
  | gone {e s e' t} (h : G s e' t) : Ended G F Q (.error e s) (.error e' t)

/-- What has come of the first reading, the second having stopped before. -/
inductive EndedAlone (G : σ → BindError → τ → Prop) (Q : α → σ → Side τ → Prop) (e : BindError) (t : τ) :
    Result BindError σ α → Prop
  | ok {a s} (h : Q a s (.stopped e t)) : EndedAlone G Q e t (.ok a s)
  | error {e' s} (h : G s e t) : EndedAlone G Q e t (.error e' s)

/-- The first reading goes on alone from where the second one has stopped. -/
theorem EndedAlone.parted {G : σ → BindError → τ → Prop} {F : BindError → σ → BindError → τ → Prop}
    {Q : α → σ → Side τ → Prop} {e : BindError} {t : τ} {x : Result BindError σ α} (h : EndedAlone G Q e t x) :
    Ended G F Q x (.error e t) := by
  cases h with
  | ok hq => exact .parted hq
  | error hg => exact .gone hg

/-- From sources in `P` the two readings end so. -/
structure Accords (G : σ → BindError → τ → Prop) (P : σ → Side τ → Prop) (F : BindError → σ → BindError → τ → Prop)
    (Q : α → σ → Side τ → Prop) (r : Reading σ α) (r' : Reading τ α) : Prop where
  both : ∀ {s t}, P s (.reading t) → Ended G F Q (r s) (r' t)
  alone : ∀ {s e t}, P s (.stopped e t) → EndedAlone G Q e t (r s)

namespace Accords

variable {G : σ → BindError → τ → Prop} {P P' : σ → Side τ → Prop} {F F' : BindError → σ → BindError → τ → Prop}
  {Q Q' : α → σ → Side τ → Prop} {R : β → σ → Side τ → Prop} {r : Reading σ α} {r' : Reading τ α}

theorem mono (h : Accords G P F Q r r') (hP : ∀ s y, P' s y → P s y) (hF : ∀ e s e' t, F e s e' t → F' e s e' t)
    (hQ : ∀ a s y, Q a s y → Q' a s y) : Accords G P' F' Q' r r' := by
  constructor
  · intro s t hst
    have hends := h.both (hP _ _ hst)
    generalize r s = x at hends ⊢
    generalize r' t = x' at hends ⊢
    cases hends with
    | both hq => exact .both (hQ _ _ _ hq)
    | parted hq => exact .parted (hQ _ _ _ hq)
    | failed hf => exact .failed (hF _ _ _ _ hf)
    | gone hg => exact .gone hg
  · intro s e t hst
    have hends := h.alone (hP _ _ hst)
    generalize r s = x at hends ⊢
    cases hends with
    | ok hq => exact .ok (hQ _ _ _ hq)
    | error hg => exact .error hg

theorem mono_post (h : Accords G P F Q r r') (hQ : ∀ a s y, Q a s y → Q' a s y) : Accords G P F Q' r r' :=
  h.mono (fun _ _ h => h) (fun _ _ _ _ h => h) hQ

theorem mono_fails (h : Accords G P F Q r r') (hF : ∀ e s e' t, F e s e' t → F' e s e' t) : Accords G P F' Q r r' :=
  h.mono (fun _ _ h => h) hF fun _ _ _ h => h

theorem pure {a : α} (h : ∀ s y, P s y → Q a s y) : Accords G P F Q (Pure.pure a) (Pure.pure a) :=
  ⟨fun hst => .both (h _ _ hst), fun hst => .ok (h _ _ hst)⟩

theorem throw {e e' : BindError} (h : ∀ s t, P s (.reading t) → F e s e' t)
    (hgone : ∀ s e t, P s (.stopped e t) → G s e t) :
    Accords G P F Q (throw e : Reading σ α) (throw e' : Reading τ α) :=
  ⟨fun hst => .failed (h _ _ hst), fun hst => .error (hgone _ _ _ hst)⟩

theorem lift {x : Except BindError α} {p : α → Prop}
    (hx : Ends p (fun e => ∀ s t, P s (.reading t) → F e s e t) x) (hQ : ∀ a, p a → ∀ s y, P s y → Q a s y)
    (hgone : ∀ s e t, P s (.stopped e t) → G s e t) : Accords G P F Q (Reading.lift x) (Reading.lift x) := by
  cases x with
  | ok a => exact pure (hQ a hx)
  | error e => exact throw hx hgone

/-- Where the second reading stops in the first part, the first one goes on alone. -/
theorem bind {k : α → Reading σ β} {k' : α → Reading τ β} (h : Accords G P F Q r r')
    (hk : ∀ a, Accords G (Q a) F R (k a) (k' a)) : Accords G P F R (r >>= k) (r' >>= k') := by
  constructor
  · intro s t hst
    have hends := h.both hst
    revert hends
    cases hr : r s with
    | ok a s' =>
      rw [Reading.bind_ok hr]
      cases hr' : r' t with
      | ok a' t' =>
        rw [Reading.bind_ok hr']
        intro hends
        cases hends with
        | both hq => exact (hk a).both hq
      | error e t' =>
        rw [Reading.bind_error hr']
        intro hends
        cases hends with
        | parted hq => exact ((hk a).alone hq).parted
    | error e s' =>
      rw [Reading.bind_error hr]
      cases hr' : r' t with
      | ok a' t' =>
        intro hends
        cases hends
      | error e' t' =>
        rw [Reading.bind_error hr']
        intro hends
        cases hends with
        | failed hf => exact .failed hf
        | gone hg => exact .gone hg
  · intro s e t hst
    have hends := h.alone hst
    revert hends
    cases hr : r s with
    | ok a s' =>
      rw [Reading.bind_ok hr]
      intro hends
      cases hends with
      | ok hq => exact (hk a).alone hq
    | error e' s' =>
      rw [Reading.bind_error hr]
      intro hends
      cases hends with
      | error hg => exact .error hg

theorem map (f : α → β) (h : Accords G P F Q r r') (hR : ∀ a s y, Q a s y → R (f a) s y) :
    Accords G P F R (do return f (← r)) (do return f (← r')) :=
  h.bind fun a => pure (hR a)

/-- The errors of both readings take a place, also the one with which the second reading stops early. -/
theorem atPlace (place place' : Place) (h : Accords G P F Q r r')
    (hF : ∀ e s e' t, F e s e' t → F' (e.at? place) s (e'.at? place') t)
    (hQ : ∀ a s e t, Q a s (.stopped e t) → Q a s (.stopped (e.at? place') t))
    (hG : ∀ s e t, G s e t → G s (e.at? place') t) :
    Accords G P F' Q (Reading.atPlace place r) (Reading.atPlace place' r') := by
  constructor
  · intro s t hst
    have hends := h.both hst
    revert hends
    cases hr : r s with
    | ok a s' =>
      rw [Reading.atPlace_ok place hr]
      cases hr' : r' t with
      | ok a' t' =>
        rw [Reading.atPlace_ok place' hr']
        intro hends
        cases hends with
        | both hq => exact .both hq
      | error e' t' =>
        rw [Reading.atPlace_error place' hr']
        intro hends
        cases hends with
        | parted hq => exact .parted (hQ _ _ _ _ hq)
    | error e s' =>
      rw [Reading.atPlace_error place hr]
      cases hr' : r' t with
      | ok a' t' =>
        intro hends
        cases hends
      | error e' t' =>
        rw [Reading.atPlace_error place' hr']
        intro hends
        cases hends with
        | failed hf => exact .failed (hF _ _ _ _ hf)
        | gone hg => exact .gone (hG _ _ _ hg)
  · intro s e t hst
    have hends := h.alone hst
    revert hends
    cases hr : r s with
    | ok a s' =>
      rw [Reading.atPlace_ok place hr]
      intro hends
      cases hends with
      | ok hq => exact .ok hq
    | error e' s' =>
      rw [Reading.atPlace_error place hr]
      intro hends
      cases hends with
      | error hg => exact .error hg

/-- What the precondition says besides where the sources are. -/
theorem of_and {p : Prop} (h : p → Accords G P F Q r r') : Accords G (fun s y => p ∧ P s y) F Q r r' :=
  ⟨fun hst => (h hst.1).both hst.2, fun hst => (h hst.1).alone hst.2⟩

/-- It is enough to look at each pair of sources on its own. -/
theorem of_each (h : ∀ s₀ y₀, P s₀ y₀ → Accords G (fun s y => s = s₀ ∧ y = y₀) F Q r r') : Accords G P F Q r r' :=
  ⟨fun hst => (h _ _ hst).both ⟨rfl, rfl⟩, fun hst => (h _ _ hst).alone ⟨rfl, rfl⟩⟩

/-- The answer is the one that the second reading gives, if it is still there. -/
theorem remember (h : Accords G P F Q r r') :
    Accords G P F (fun a s y => Q a s y ∧ ∀ t, y = .reading t → ∃ s₀ t₀, P s₀ (.reading t₀) ∧ r' t₀ = .ok a t)
      r r' := by
  constructor
  · intro s t hst
    have hends := h.both hst
    cases hr' : r' t with
    | ok a' t' =>
      rw [hr'] at hends
      generalize r s = x at hends ⊢
      cases hends with
      | both hq =>
        refine .both ⟨hq, ?_⟩
        rintro _ ⟨⟩
        exact ⟨s, t, hst, hr'⟩
    | error e' t' =>
      rw [hr'] at hends
      generalize r s = x at hends ⊢
      cases hends with
      | parted hq => exact .parted ⟨hq, nofun⟩
      | failed hf => exact .failed hf
      | gone hg => exact .gone hg
  · intro s e t hst
    have hends := h.alone hst
    generalize r s = x at hends ⊢
    cases hends with
    | ok hq => exact .ok ⟨hq, nofun⟩
    | error hg => exact .error hg

/-- Looking where the sources are. -/
theorem here {k : σ → Reading σ α} {k' : τ → Reading τ α}
    (h : ∀ s₀ t₀, Accords G (fun s y => P s y ∧ s = s₀ ∧ y.state = t₀) F Q (k s₀) (k' t₀)) :
    Accords G P F Q (get >>= k) (get >>= k') :=
  ⟨fun {s t} hst => (h s t).both ⟨hst, rfl, rfl⟩, fun {s _ t} hst => (h s t).alone ⟨hst, rfl, rfl⟩⟩

section Listeners
variable [Listener σ] [Listener τ]

theorem tell {e : Event σ} {e' : Event τ} {Q : Unit → σ → Side τ → Prop}
    (h : ∀ s y, P s y → Q () (Listener.hear e s) (y.step (Listener.hear e'))) :
    Accords G P F Q (Reading.tell e) (Reading.tell e') :=
  ⟨fun hst => .both (h _ _ hst), fun hst => .ok (h _ _ hst)⟩

/-- What is made of what was read, if whatever is done is heard. -/
theorem perform {x : Making α} {p : α → Prop}
    (hdeed : ∀ d s y, P s y → P (Listener.hear (.deed d) s) (y.step (Listener.hear (.deed d))))
    (hx : Ends p (fun e => ∀ s t, P s (.reading t) → F e s e t) x.outcome)
    (hQ : ∀ a, p a → ∀ s y, P s y → Q a s y) (hgone : ∀ s e t, P s (.stopped e t) → G s e t) :
    Accords G P F Q (Reading.perform x) (Reading.perform x) := by
  have htold : ∀ deeds : List Deed, Accords G P F (fun _ => P)
      (deeds.forM fun d => Reading.tell (.deed d)) (deeds.forM fun d => Reading.tell (.deed d)) := by
    intro deeds
    induction deeds with
    | nil => exact pure fun _ _ h => h
    | cons d deeds ih => exact (tell (Q := fun _ => P) (hdeed d)).bind fun _ => ih
  exact (htold x.deeds).bind fun _ => lift hx hQ hgone

end Listeners

section Streams
variable [TokenStream σ] [TokenStream τ]

/-- Both sources show the same at the front. -/
abbrev SameFront (P : σ → Side τ → Prop) : Prop :=
  ∀ s t, P s (.reading t) → front t = front s

theorem peek (hfront : SameFront P) {k : TokenKind → Reading σ α} {k' : TokenKind → Reading τ α}
    (h : ∀ kind, Accords G (fun s y => P s y ∧ (front s).kind = kind) F Q (k kind) (k' kind)) :
    Accords G P F Q (Reading.peek >>= k) (Reading.peek >>= k') := by
  constructor
  · intro s t hst
    rw [Reading.peek_bind, Reading.peek_bind, hfront s t hst]
    exact (h _).both ⟨hst, rfl⟩
  · intro s e t hst
    rw [Reading.peek_bind]
    exact (h _).alone ⟨hst, rfl⟩

/-- The same token is taken from both sources, or refused. -/
theorem take (hfront : SameFront P) {expected : String} {pick : Token → Option α}
    (hok : ∀ s y u a, P s y → front s = .token u → pick u = some a → Q a (advance s) (y.step advance))
    (herror : ∀ s t, P s (.reading t) → (∀ u, front s = .token u → pick u = none) →
      F (.tokenMismatch expected (front s).kind) s (.tokenMismatch expected (front s).kind) t)
    (hgone : ∀ s e t, P s (.stopped e t) → G s e t) :
    Accords G P F Q (Reading.take expected pick) (Reading.take expected pick) := by
  have hpicked : ∀ s : σ, (∃ u a, front s = .token u ∧ pick u = some a) ∨ ∀ u, front s = .token u → pick u = none := by
    intro s
    by_cases h : ∃ u a, front s = .token u ∧ pick u = some a
    · exact .inl h
    · refine .inr fun u hu => Option.eq_none_iff_forall_ne_some.2 fun a ha => h ⟨u, a, hu, ha⟩
  constructor
  · intro s t hst
    have hsame := hfront s t hst
    rcases hpicked s with ⟨u, a, hu, ha⟩ | hnone
    · rw [Reading.take_ok hu ha, Reading.take_ok (hsame.trans hu) ha]
      exact .both (hok s _ u a hst hu ha)
    · rw [Reading.take_error hnone, Reading.take_error (hsame ▸ hnone), hsame]
      exact .failed (herror s t hst hnone)
  · intro s e t hst
    rcases hpicked s with ⟨u, a, hu, ha⟩ | hnone
    · rw [Reading.take_ok hu ha]
      exact .ok (hok s _ u a hst hu ha)
    · rw [Reading.take_error hnone]
      exact .error (hgone s e t hst)

/-! ### Loops -/

variable [Listener σ] [Listener τ]

/-- One loop beside another. `I` says what holds between two turns, by the number of turns so far and by those that
the bounds still allow, and each turn that is heard keeps it. The loops end where a container closes, or where the
bounds are used up. -/
theorem forMembers {I : (behind n m : Nat) → α → σ → Side τ → Prop} {body : α → Reading σ α}
    {body' : α → Reading τ α} (hfront : ∀ k n m acc, SameFront (I k n m acc))
    (hbounds : ∀ {k n m acc s y}, I k n m acc s y → (n = 0 ↔ m = 0))
    (hexhausted : ∀ {k acc s y}, I k 0 0 acc s y →
      I k 0 0 acc (Listener.hear .exhausted s) (y.step (Listener.hear .exhausted)))
    (hbody : ∀ {k n m acc s₀ y₀}, I k (n + 1) (m + 1) acc s₀ y₀ → (front s₀).kind.closes = false →
      Accords G (fun s y => s = s₀ ∧ y = y₀) F
        (fun acc s y => I (k + 1) n m acc (Listener.hear (.turn s₀ s) s)
          (y.step fun t => Listener.hear (.turn y₀.state t) t)) (body acc) (body' acc)) :
    ∀ (n m k : Nat) (acc : α), Accords G (I k n m acc) F
      (fun acc s y => ∃ k n m, I k n m acc s y ∧ (n = 0 ∨ (front s).kind.closes))
      (Reading.forMembers body n acc) (Reading.forMembers body' m acc) := by
  intro n
  induction n with
  | zero =>
    intro m k acc
    cases m with
    | succ m => exact of_each fun s y h => absurd (hbounds h) (by simp)
    | zero =>
      refine (tell (Q := fun _ => I k 0 0 acc) fun s y => hexhausted).bind fun _ => pure fun s y h => ?_
      exact ⟨k, 0, 0, h, .inl rfl⟩
  | succ n ih =>
    intro m k acc
    cases m with
    | zero => exact of_each fun s y h => absurd (hbounds h) (by simp)
    | succ m =>
      unfold Reading.forMembers Reading.hasNext
      rw [bind_assoc, bind_assoc]
      refine peek (hfront _ _ _ _) fun kind => ?_
      rw [pure_bind, pure_bind]
      cases hcloses : kind.closes with
      | true =>
        refine pure ?_
        rintro s y ⟨h, rfl⟩
        exact ⟨k, n + 1, m + 1, h, .inr hcloses⟩
      | false =>
        refine here fun s₀ t₀ => bind (Q := fun acc s y => I (k + 1) n m acc (Listener.hear (.turn s₀ s) s)
          (y.step fun t => Listener.hear (.turn t₀ t) t)) (of_each ?_) fun acc => ?_
        · rintro s y ⟨⟨h, rfl⟩, rfl, rfl⟩
          exact hbody h hcloses
        · refine here fun s₁ t₁ => (tell (Q := fun _ => I (k + 1) n m acc) ?_).bind fun _ => ih m (k + 1) acc
          rintro s y ⟨h, rfl, rfl⟩
          cases y <;> exact h

end Streams
end Accords
end Bindery
