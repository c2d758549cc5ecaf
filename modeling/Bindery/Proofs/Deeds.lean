import Bindery.Proofs.Accord
import Bindery.Proofs.Recording
/-!
# What is done to an instance

A recorder hears what is done to the instance of the record that is read from it. Parts of the record are read quietly,
so nothing is heard of a record inside of another one. `Recorder.Does` has that a recording ends as the reading of its
source does, and what was done by then; there is one rule for each way in which the reading of a record is put together.
-/

namespace Bindery

open TokenStream (front advance)
open Listener (hear)

variable {σ α β : Type}

/-! ## Deeds -/

/-- What is done to the instance. -/
def Event.deed? : Event σ → Option Deed
  | deed d => some d
  | _ => none

namespace Recorder

/-- What has been done to the instance so far. -/
def deeds (w : Recorder σ) : List Deed := w.log.filterMap Event.deed?

theorem deeds_hear (e : Event (Recorder σ)) (w : Recorder σ) : (hear e w).deeds = w.deeds ++ e.deed?.toList := by
  have hlog : (hear e w).deeds = w.deeds ++ [e.map source].filterMap Event.deed? := List.filterMap_append
  rw [hlog]
  cases e <;> rfl

end Recorder

namespace Making

variable {E : List Deed → Prop} {deeds : List Deed} {x : Making α} {P Q : α → List Deed → Prop}
  {R : β → List Deed → Prop}

/-- With these deeds done before, `Q` holds of the answer and of the deeds after it, or `E` of the deeds up to where it
fails. -/
def Keeps (E : List Deed → Prop) (deeds : List Deed) (x : Making α) (Q : α → List Deed → Prop) : Prop :=
  Ends (fun a => Q a (deeds ++ x.deeds)) (fun _ => E (deeds ++ x.deeds)) x.outcome

namespace Keeps

theorem pure {a : α} (h : Q a deeds) : Keeps E deeds (pure a) Q := by
  change Q a (deeds ++ [])
  rwa [List.append_nil]

theorem throw {e : BindError} (h : E deeds) : Keeps E deeds (Making.lift (.error e)) Q := by
  change E (deeds ++ [])
  rwa [List.append_nil]

theorem lift {x : Except BindError α} (hE : E deeds) (hQ : ∀ a, Q a deeds) : Keeps E deeds (Making.lift x) Q := by
  cases x with
  | ok a => exact pure (hQ a)
  | error e => exact throw hE

theorem bind {k : α → Making β} (h : Keeps E deeds x P) (hk : ∀ a deeds', P a deeds' → Keeps E deeds' (k a) R) :
    Keeps E deeds (x >>= k) R := by
  unfold Keeps at h
  cases hx : x.outcome with
  | ok a =>
    have hbind : (x >>= k) = ⟨x.deeds ++ (k a).deeds, (k a).outcome⟩ := by
      simp only [Bind.bind, hx]
    rw [hx] at h
    have hrest := hk a _ h
    unfold Keeps at hrest ⊢
    rw [hbind]
    rwa [List.append_assoc] at hrest
  | error e =>
    have hbind : (x >>= k) = ⟨x.deeds, .error e⟩ := by
      simp only [Bind.bind, hx]
    rw [hx] at h
    unfold Keeps
    rw [hbind]
    exact h

/-- A deed, and what comes after it. -/
theorem does {d : Deed} {k : Unit → Making α} (h : Keeps E (deeds ++ [d]) (k ()) Q) :
    Keeps E deeds (Making.does d >>= k) Q :=
  bind (P := fun _ deeds' => deeds' = deeds ++ [d]) rfl fun _ _ hdeeds => hdeeds ▸ h

/-- What is known of the answer holds besides. -/
theorem and (h : Keeps E deeds x Q) {p : α → Prop} (hp : Ends p (fun _ => True) x.outcome) :
    Keeps E deeds x fun a deeds => p a ∧ Q a deeds := by
  unfold Keeps at h ⊢
  cases hx : x.outcome with
  | ok a =>
    rw [hx] at h hp
    exact ⟨hp, h⟩
  | error e =>
    rw [hx] at h
    exact h

theorem any (x : Making α) : Keeps (fun _ => True) deeds x fun _ _ => True := .of_forall _ fun _ => trivial

end Keeps
end Making

/-! ## Recordings -/

namespace Recorder

/-- The source is where the recorder is, and this holds of what has been done. -/
def Done (p : List Deed → Prop) (w : Recorder σ) (y : Side σ) : Prop := y = .reading w.source ∧ p w.deeds

/-- With these deeds done before, a recording ends as the reading beside it does; and `Q` holds of the answer and of the
deeds after it, or `E` of the deeds up to where it fails. -/
abbrev Does (E : List Deed → Prop) (deeds : List Deed) (r : Reading (Recorder σ) α) (r' : Reading σ α)
    (Q : α → List Deed → Prop) : Prop :=
  Accords (fun _ _ _ => False) (Done (· = deeds)) (fun e w e' t => e' = e ∧ Done E w (.reading t)) (fun a => Done (Q a))
    r r'

namespace Does

variable {E : List Deed → Prop} {deeds : List Deed} {P Q : α → List Deed → Prop} {R : β → List Deed → Prop}
  {r : Reading (Recorder σ) α} {r' : Reading σ α}

/-- How a recording and its reading end. -/
theorem run (h : Does E deeds r r' Q) {w : Recorder σ} (hw : w.deeds = deeds) :
    (∃ a w', r w = .ok a w' ∧ r' w.source = .ok a w'.source ∧ Q a w'.deeds) ∨
      ∃ e w', r w = .error e w' ∧ r' w.source = .error e w'.source ∧ E w'.deeds := by
  have hends := h.both (s := w) ⟨rfl, hw⟩
  generalize r w = x at hends ⊢
  generalize r' w.source = x' at hends ⊢
  cases hends with
  | both hq =>
    obtain ⟨hsource, hq⟩ := hq
    cases hsource
    exact .inl ⟨_, _, rfl, rfl, hq⟩
  | parted hq => cases hq.1
  | failed hf =>
    obtain ⟨rfl, hsource, he⟩ := hf
    cases hsource
    exact .inr ⟨_, _, rfl, rfl, he⟩
  | gone hg => exact hg.elim

theorem ok (h : Does E deeds r r' Q) {w w' : Recorder σ} {a : α} (hr : r w = .ok a w') (hw : w.deeds = deeds) :
    r' w.source = .ok a w'.source ∧ Q a w'.deeds := by
  rcases h.run hw with ⟨b, w'', hr', hrest⟩ | ⟨e, w'', hr', -⟩
  · cases hr.symm.trans hr'
    exact hrest
  · cases hr.symm.trans hr'

theorem error (h : Does E deeds r r' Q) {w w' : Recorder σ} {e : BindError} (hr : r w = .error e w')
    (hw : w.deeds = deeds) : r' w.source = .error e w'.source ∧ E w'.deeds := by
  rcases h.run hw with ⟨a, w'', hr', -⟩ | ⟨e', w'', hr', hrest⟩
  · cases hr.symm.trans hr'
  · cases hr.symm.trans hr'
    exact hrest

theorem pure {a : α} (h : Q a deeds) : Does (σ := σ) E deeds (Pure.pure a) (Pure.pure a) Q :=
  Accords.pure fun _ _ hw => ⟨hw.1, hw.2 ▸ h⟩

theorem throw {e : BindError} (h : E deeds) : Does (σ := σ) E deeds (throw e) (throw e) Q := by
  refine Accords.throw (fun w t hw => ⟨rfl, hw.1, hw.2 ▸ h⟩) fun w e t hw => ?_
  cases hw.1

theorem lift {x : Except BindError α} (hE : E deeds) (hQ : ∀ a, Q a deeds) :
    Does (σ := σ) E deeds (Reading.lift x) (Reading.lift x) Q := by
  cases x with
  | ok a => exact pure (hQ a)
  | error e => exact throw hE

theorem bind {k : α → Reading (Recorder σ) β} {k' : α → Reading σ β} (h : Does E deeds r r' P)
    (hk : ∀ a deeds', P a deeds' → Does E deeds' (k a) (k' a) R) : Does E deeds (r >>= k) (r' >>= k') R :=
  Accords.bind h fun a => .of_each fun w y hw => (hk a w.deeds hw.2).mono
    (fun _ _ h => ⟨by rw [h.2, hw.1, h.1], by rw [h.1]⟩) (fun _ _ _ _ h => h) fun _ _ _ h => h

/-- What does nothing, and what comes after it. -/
theorem bind_same {k : α → Reading (Recorder σ) β} {k' : α → Reading σ β} (h : Does E deeds r r' fun _ => (· = deeds))
    (hk : ∀ a, Does E deeds (k a) (k' a) R) : Does E deeds (r >>= k) (r' >>= k') R :=
  bind h fun a _ hdeeds => hdeeds ▸ hk a

theorem atPlace (place : Place) (h : Does E deeds r r' Q) :
    Does E deeds (Reading.atPlace place r) (Reading.atPlace place r') Q := by
  refine Accords.atPlace place place h ?_ ?_ fun _ _ _ h => h
  · rintro e w _ t ⟨rfl, h⟩
    exact ⟨rfl, h⟩
  · rintro a w e t ⟨h, -⟩
    cases h

theorem quiet (r : Reading σ α) (hE : E deeds) : Does E deeds (Reading.quiet r) r fun _ => (· = deeds) := by
  constructor
  · rintro w t ⟨h, rfl⟩
    cases h
    unfold Reading.quiet
    cases r w.source with
    | ok a s => exact .both ⟨rfl, rfl⟩
    | error e s => exact .failed ⟨rfl, rfl, hE⟩
  · rintro w e t ⟨h, -⟩
    cases h

/-- What is heard of is not done to the instance. -/
theorem tell {e : Event (Recorder σ)} {e' : Event σ} (h : e.deed? = none) :
    Does E deeds (Reading.tell e) (Reading.tell e') fun _ => (· = deeds) := by
  refine Accords.tell fun w y hw => ⟨?_, ?_⟩
  · rw [hw.1]
    rfl
  · rw [deeds_hear, h, hw.2]
    exact List.append_nil _

theorem perform {x : Making α} (h : x.Keeps E deeds Q) :
    Does (σ := σ) E deeds (Reading.perform x) (Reading.perform x) Q := by
  have htold : ∀ (more : List Deed) (deeds : List Deed), Does (σ := σ) E deeds
      (more.forM fun d => Reading.tell (.deed d)) (more.forM fun d => Reading.tell (.deed d))
      fun _ => (· = deeds ++ more) := by
    intro more
    induction more with
    | nil => exact fun deeds => pure (List.append_nil deeds).symm
    | cons d more ih =>
      intro deeds
      have hheard : Does (σ := σ) E deeds (Reading.tell (.deed d)) (Reading.tell (.deed d))
          fun _ => (· = deeds ++ [d]) :=
        Accords.tell fun w y hw => ⟨by rw [hw.1]; rfl, by rw [deeds_hear, hw.2]; rfl⟩
      refine bind hheard fun _ deeds' hdeeds => ?_
      subst hdeeds
      have hmore := ih (deeds ++ [d])
      rwa [List.append_assoc] at hmore
  refine bind (htold x.deeds deeds) fun _ deeds' hdeeds => ?_
  subst hdeeds
  unfold Making.Keeps at h
  cases hx : x.outcome with
  | ok a =>
    rw [hx] at h
    exact pure h
  | error e =>
    rw [hx] at h
    exact throw h

section Streams
variable [TokenStream σ]

theorem take {expected : String} {pick : Token → Option α} (hE : E deeds) :
    Does (σ := σ) E deeds (Reading.take expected pick) (Reading.take expected pick) fun _ => (· = deeds) := by
  refine Accords.take ?_ ?_ ?_ ?_
  · rintro w t ⟨h, -⟩
    cases h
    rfl
  · rintro w y u a ⟨rfl, hdeeds⟩ - -
    exact ⟨rfl, hdeeds⟩
  · rintro w t ⟨h, rfl⟩ -
    exact ⟨rfl, h, hE⟩
  · rintro w e t ⟨h, -⟩
    cases h

theorem absent (c : Context) (t : Ty) (hE : E deeds) :
    Does (σ := σ) E deeds (Decode.absent c t) (Decode.absent c t) fun _ => (· = deeds) := by
  refine Accords.peek ?_ fun kind => ?_
  · rintro w t ⟨h, -⟩
    cases h
    rfl
  refine Accords.mono ?_ (fun _ _ h => h.1) (fun _ _ _ _ h => h) fun _ _ _ h => h
  split
  · exact pure rfl
  · exact bind_same (take hE) fun _ => pure rfl

/-- What every turn keeps holds at the end of a loop. -/
theorem forMembers {body : α → Reading (Recorder σ) α} {body' : α → Reading σ α}
    (h : ∀ acc deeds, Q acc deeds → Does E deeds (body acc) (body' acc) Q) (budget : Nat) {acc : α}
    (hacc : Q acc deeds) :
    Does E deeds (Reading.forMembers body budget acc) (Reading.forMembers body' budget acc) Q := by
  refine Accords.mono (Accords.forMembers (G := fun _ _ _ => False)
    (F := fun e w e' t => e' = e ∧ Done E w (.reading t)) (I := fun _ n m acc w y => n = m ∧ Done (Q acc) w y)
    ?_ ?_ ?_ ?_ budget budget 0 acc) (fun w y hw => ⟨rfl, hw.1, hw.2 ▸ hacc⟩) (fun _ _ _ _ h => h) ?_
  · rintro k n m acc w t ⟨-, h, -⟩
    cases h
    rfl
  · rintro k n m acc w y ⟨rfl, -⟩
    rfl
  · rintro k acc w y ⟨-, rfl, hq⟩
    refine ⟨rfl, rfl, ?_⟩
    rw [deeds_hear]
    exact (List.append_nil w.deeds).symm ▸ hq
  · rintro k n m acc w₀ y₀ ⟨hnm, rfl, hq⟩ -
    refine (h acc w₀.deeds hq).mono ?_ (fun _ _ _ _ h => h) ?_
    · rintro w y ⟨rfl, rfl⟩
      exact ⟨rfl, rfl⟩
    · rintro acc w y ⟨rfl, hq⟩
      refine ⟨Nat.succ.inj hnm, rfl, ?_⟩
      rw [deeds_hear]
      exact (List.append_nil w.deeds).symm ▸ hq
  · rintro acc w y ⟨_, _, _, ⟨-, h⟩, -⟩
    exact h

end Streams
end Does
end Recorder

/-! ## Heads of a loop -/

/-- A loop over members that begins with `opening` at a source is at the head of a turn, or behind its last one, with
an accumulator and another source. -/
inductive Reading.AtHead [TokenStream σ] [Listener σ] (opening : Reading σ α) (body : α → Reading σ α) (s : σ) :
    α → σ → Prop
  | opened {acc : α} {t : σ} (h : opening s = .ok acc t) : AtHead opening body s acc t
  | turned {acc acc' : α} {t t' : σ} (h : AtHead opening body s acc t) (hnext : Reading.hasNext t = .ok true t)
    (hbody : body acc t = .ok acc' t') : AtHead opening body s acc' (hear (.turn t t') t')

end Bindery
