import Bindery.Proofs.Reads
/-!
# What a reading consumes

`Consumes r Q E` speaks of a reading on its own, wherever it starts: if it succeeds, tokens came off the
source one by one and `Q` holds of the result and these tokens, and if it fails, `E` holds of the error.
Where `Reads` tells what becomes of tokens that are known, this tells which tokens there must have been.

There is one rule for each way in which readings are put together. Postconditions speak of the tokens from
where the reading started, so the rule of sequence hands the tokens so far to what comes next.
-/

namespace Bindery

open TokenStream (front advance)

variable {σ α β : Type} [TokenStream σ]

/-- From any source: a success has consumed tokens, and `Q` holds of its result and of them; `E` holds of
the error of a failure. -/
def Consumes (r : Reading σ α) (Q : α → List Token → Prop) (E : BindError → Prop) : Prop :=
  ∀ s, match r s with
    | .ok a s' => ∃ ts, Walks s ts s' ∧ Q a ts
    | .error e _ => E e

namespace Consumes

variable {P Q : α → List Token → Prop} {R : β → List Token → Prop} {E F : BindError → Prop}

theorem ok {r : Reading σ α} (h : Consumes r Q E) {s s' : σ} {a : α} (hr : r s = .ok a s') :
    ∃ ts, Walks s ts s' ∧ Q a ts := by
  have hs := h s
  rw [hr] at hs
  exact hs

theorem error {r : Reading σ α} (h : Consumes r Q E) {s s' : σ} {e : BindError} (hr : r s = .error e s') : E e := by
  have hs := h s
  rw [hr] at hs
  exact hs

theorem mono {r : Reading σ α} (h : Consumes r P E) (hQ : ∀ a ts, P a ts → Q a ts) : Consumes r Q E := by
  intro s
  cases hr : r s with
  | ok a s' =>
    obtain ⟨ts, hw, hp⟩ := h.ok hr
    exact ⟨ts, hw, hQ a ts hp⟩
  | error e s' => exact h.error hr

theorem mono_error {r : Reading σ α} (h : Consumes r Q E) (hE : ∀ e, E e → F e) : Consumes r Q F := by
  intro s
  cases hr : r s with
  | ok a s' => exact h.ok hr
  | error e s' => exact hE e (h.error hr)

theorem pure {a : α} (h : Q a []) : Consumes (Pure.pure a : Reading σ α) Q E := fun _ => ⟨[], rfl, h⟩

theorem throw {e : BindError} (h : E e) : Consumes (throw e : Reading σ α) Q E := fun _ => h

theorem lift {x : Except BindError α} (hok : ∀ a, x = .ok a → Q a []) (herror : ∀ e, x = .error e → E e) :
    Consumes (Reading.lift x : Reading σ α) Q E := by
  cases x with
  | ok a => exact pure (hok a rfl)
  | error e => exact throw (herror e rfl)

/-- The tokens of a sequence are those of its parts. -/
theorem bind {r : Reading σ α} {k : α → Reading σ β} (h : Consumes r P E)
    (hk : ∀ a ts, P a ts → Consumes (k a) (fun b us => R b (ts ++ us)) E) : Consumes (r >>= k) R E := by
  intro s
  cases hr : r s with
  | error e s' =>
    rw [Reading.bind_error hr]
    exact h.error hr
  | ok a s' =>
    obtain ⟨ts, hw, hp⟩ := h.ok hr
    rw [Reading.bind_ok hr]
    cases hk' : k a s' with
    | error e s'' => exact (hk a ts hp).error hk'
    | ok b s'' =>
      obtain ⟨us, hw', hb⟩ := (hk a ts hp).ok hk'
      exact ⟨ts ++ us, hw.trans hw', hb⟩

/-- Looking at the front consumes nothing. -/
theorem peek {k : TokenKind → Reading σ β} (h : ∀ kind, Consumes (k kind) R E) :
    Consumes (Reading.peek >>= k) R E := by
  intro s
  rw [Reading.peek_bind]
  exact h _ s

/-- Looking where the source is consumes nothing either. -/
theorem here {k : σ → Reading σ β} (h : ∀ s, Consumes (k s) R E) : Consumes (get >>= k) R E := fun s => h s s

/-- One token is consumed that was asked for, or what is there instead is refused. -/
theorem take {expected : String} {pick : Token → Option α} (hok : ∀ t a, pick t = some a → Q a [t])
    (herror : ∀ found, E (.tokenMismatch expected found)) :
    Consumes (Reading.take expected pick : Reading σ α) Q E := by
  intro s
  unfold Reading.take
  cases hf : front s with
  | unknown | done => exact herror _
  | token t =>
    cases hp : pick t with
    | none =>
      simp only [hp]
      exact herror _
    | some a =>
      simp only [hp]
      exact ⟨[t], walks_one.2 ⟨hf, rfl⟩, hok t a hp⟩

theorem expect {t : Token} {Q : Unit → List Token → Prop} (hok : Q () [t])
    (herror : ∀ found, E (.tokenMismatch t.kind.text found)) : Consumes (Reading.expect t : Reading σ Unit) Q E := by
  refine take ?_ herror
  intro u a hu
  split at hu
  · next h =>
    cases h
    exact hok
  · cases hu

theorem name {Q : String → List Token → Prop} (hok : ∀ key, Q key [.name key])
    (herror : ∀ found, E (.tokenMismatch TokenKind.name.text found)) :
    Consumes (Reading.name : Reading σ String) Q E := by
  refine take ?_ herror
  intro t key ht
  cases t <;> cases ht
  exact hok key

theorem atPlace {r : Reading σ α} (place : Place) (h : Consumes r Q E) (hE : ∀ e, E e → F (e.at? place)) :
    Consumes (Reading.atPlace place r) Q F := by
  intro s
  unfold Reading.atPlace
  cases hr : r s with
  | ok a s' => exact h.ok hr
  | error e s' => exact hE e (h.error hr)

/-- What every turn of a loop keeps of the accumulator and the tokens so far holds when the loop ends. -/
theorem forMembers {I : α → List Token → Prop} {body : α → Reading σ α}
    (hbody : ∀ acc ts, I acc ts → Consumes (body acc) (fun acc us => I acc (ts ++ us)) E) (budget : Nat) :
    ∀ {acc ts}, I acc ts → Consumes (Reading.forMembers body budget acc) (fun acc us => I acc (ts ++ us)) E := by
  induction budget with
  | zero =>
    intro acc ts h
    exact pure (by rwa [List.append_nil])
  | succ budget ih =>
    intro acc ts h
    unfold Reading.forMembers Reading.hasNext
    rw [bind_assoc]
    refine peek fun kind => ?_
    rw [pure_bind]
    split
    · refine (hbody acc ts h).bind fun acc us h => ?_
      simp only [← List.append_assoc]
      exact ih h
    · exact pure (by rwa [List.append_nil])

/-- A container: its opening bracket, what the loop consumes, its closing bracket, and what is made of it. -/
theorem container {I : α → List Token → Prop} {body : α → Reading σ α} {opening closing : Token} {budget : Nat}
    {acc : α} {k : α → Reading σ β} (herror : ∀ expected found, E (.tokenMismatch expected found))
    (hstart : I acc []) (hbody : ∀ acc ts, I acc ts → Consumes (body acc) (fun acc us => I acc (ts ++ us)) E)
    (hk : ∀ acc ts, I acc ts → Consumes (k acc) (fun b us => R b (opening :: (ts ++ closing :: us))) E) :
    Consumes (Reading.expect opening >>= fun _ => Reading.forMembers body budget acc >>= fun acc =>
      Reading.expect closing >>= fun _ => k acc) R E := by
  refine (expect (Q := fun _ ts => ts = [opening]) rfl (herror _)).bind fun _ ts hts => ?_
  subst hts
  refine (forMembers hbody budget hstart).bind fun acc ts h => ?_
  refine (expect (Q := fun _ us => us = [closing]) rfl (herror _)).bind fun _ us hus => ?_
  subst hus
  refine (hk acc ts h).mono fun b us hb => ?_
  simpa using hb

end Consumes

/-- Decoding is reading with the type registered first. -/
theorem Binder.decode_eq {σ : Type} [TokenSource σ] (b : Binder) (t : Ty) (s : σ) :
    b.decode t s = (((b.register t).read t s).1, ((b.register t).read t s).2, b.register t) := rfl

end Bindery
