import Bindery.Proofs.Readers
import Bindery.Proofs.Steady
/-!
# Readings come to an end

Tapes and cursors are sources off which tokens come one by one, whatever stands there (`TapeReader.tame`,
`NodeCursor.tame`). So no bound is ever used up: recorded with whatever larger bound, a reading does the same
(`Tame.stops`), and what it asks for on the way goes down a well-founded order (`Tame.acc_asks`).
-/

namespace Bindery

open TokenStream (front advance)

variable {σ α β : Type}

/-! ## Tapes and cursors -/

theorem TapeReader.tame (T : Token → Prop) :
    Tame (fun r : TapeReader => ∀ t, .mark (.token t) ∈ r.rest → T t) T := by
  have hcurrent : ∀ {r : TapeReader} {t : Token}, front r = .token t →
      ∃ rest, r.current = .mark (.token t) :: rest := by
    intro r t hf
    simp only [front] at hf
    split at hf <;> cases hf
    exact ⟨_, ‹_›⟩
  have hadvance : ∀ {r : TapeReader} {t : Token}, front r = .token t →
      (.mark (.token t) :: (advance r).rest) <:+ r.rest := by
    intro r t hf
    obtain ⟨rest, hrest⟩ := hcurrent hf
    have hrest' : (advance r).rest = rest := by
      simp only [advance, hrest]
    rw [hrest', ← hrest]
    exact List.dropWhile_suffix _
  constructor
  · intro r t hr hf
    exact hr t ((hadvance hf).subset (List.mem_cons_self ..))
  · intro r t hr hf u hu
    exact hr u ((hadvance hf).subset (List.mem_cons_of_mem _ hu))
  · intro r t _ hf
    exact (hadvance hf).length_le

theorem NodeCursor.tame : Tame NodeCursor.WellPlaced fun _ => True := by
  constructor
  · exact fun _ _ => trivial
  · exact fun hc _ => wellPlaced_advance hc
  · intro c t hc hf
    change c.advance.length < c.length
    rw [length_eq, length_eq, tokens_advance hc]
    change c.front = .token t at hf
    rw [front_eq hc] at hf
    cases hts : c.tokens with
    | nil =>
      rw [hts] at hf
      cases hf
    | cons u us => exact Nat.lt_succ_self _

theorem TapeReader.skip_eq_skipTokens : (Reading.skip : Reading TapeReader Unit) = Reading.skipTokens := rfl

/-! ## Readings stop -/

/-- What the value of a type at a source can ask for: a value further on, or the payload of an option. -/
def Asks [TokenStream σ] (part whole : Ty × σ) : Prop :=
  Ahead whole.2 part.2 ∨ (part.2 = whole.2 ∧ whole.1 = .option part.1)

/-- Asking comes to an end: tokens run out, and between two of them options do. -/
theorem Tame.acc_asks [TokenStream σ] {V : σ → Prop} {T : Token → Prop} (hV : Tame V T) : ∀ (left : Nat) {s : σ}, V s →
    TokenStream.length s < left → ∀ t, Acc Asks (t, s) := by
  intro left
  induction left with
  | zero => exact fun _ h => absurd h (Nat.not_lt_zero _)
  | succ left ih =>
    intro s hs hlen t
    have hahead : ∀ {u s'}, Ahead s s' → Acc Asks (u, s') := by
      intro u s' hs'
      obtain ⟨hs'', hlt⟩ := hV.ahead hs hs'
      exact ih hs'' (by omega) u
    induction t with
    | option payload ihp =>
      constructor
      rintro ⟨u, s'⟩ (hs' | ⟨rfl, hu⟩)
      · exact hahead hs'
      · cases hu
        exact ihp
    | scalar | enum | seq | set | map | dynamic | record | foreign =>
      constructor
      rintro ⟨u, s'⟩ (hs' | ⟨-, hu⟩)
      · exact hahead hs'
      · cases hu

/-- Recorded with any bound that exceeds the tokens left, a reading does not use the bound up: it ends as it does
without being recorded, and whatever happens on the way makes progress. -/
def Stops [TokenStream σ] (recorded : Nat → Reading (Recorder σ) α) (r : Reading σ α) (s : σ) : Prop :=
  ∀ budget, TokenStream.length s < budget → ∃ log,
    (recorded budget).run { source := s } = ((r.run s).1, ⟨(r.run s).2, log⟩) ∧ ∀ e ∈ log, e.Progresses

section Source
variable [TokenSource σ]

/-- Reading a value of a type from a source stops, and so does skipping whatever is there. -/
structure Binder.Stops (b : Binder) (t : Ty) (s : σ) : Prop where
  read : Bindery.Stops (fun budget => Decode.rootWithin b.toContext budget t) (Decode.root b.toContext t) s
  skip : Bindery.Stops (fun budget => Reading.skipByDepth budget 0) Reading.skip s
  ask : Acc Asks (t, s)

variable {V : σ → Prop} {T : Token → Prop} (hV : Tame V T)
  (hskip : (Reading.skip : Reading σ Unit) = Reading.skipTokens)

/-- Nothing is asked of a context for errors that nothing is asked of. -/
theorem Context.apt_true (c : Context) : c.Apt T fun _ => True where
  worded _ := trivial
  at? _ _ := trivial
  read _ _ _ := .of_forall _ fun _ => trivial
  readNull _ := .of_forall _ fun _ => trivial
  makes _ := ⟨fun _ _ => .of_forall _ fun _ => trivial, fun _ => trivial⟩

include hV hskip

theorem Tame.stops (b : Binder) (t : Ty) {s : σ} (hs : V s) : b.Stops t s where
  read := by
    intro budget hbudget
    obtain ⟨log, hrun, htrail, -⟩ :=
      Recorder.Steady.rootWithin b.toContext.apt_true hV hskip hbudget (Nat.lt_succ_self _) hs t
    refine ⟨log, ?_, fun e he => (htrail.sound e he).progresses⟩
    rw [Decode.root_run]
    exact hrun
  skip := by
    intro budget hbudget
    have hstart : Recorder.Steady V s { source := s } (.reading s) := .nothing hs
    obtain ⟨log, hrun, htrail, -⟩ := Recorder.Steady.run
      (Recorder.Steady.skipByDepth hV budget (TokenStream.length s + 1) 0) ⟨hstart, hbudget, Nat.lt_succ_self _⟩
      fun _ _ _ h => h
    refine ⟨log, ?_, fun e he => (htrail.sound e he).progresses⟩
    rw [hskip]
    exact hrun
  ask := hV.acc_asks _ hs (Nat.lt_succ_self _) t

omit hV in
/-- A value that is read has consumed at least one token. -/
theorem Decode.value_ahead {c : Context} {budget : Nat} {t : Ty} {place : Place} {s s' : σ} {v : Value}
    (h : Decode.value c budget t place s = .ok v s') : Ahead s s' := by
  obtain ⟨ts, hw, hts⟩ := (ConsumesValue.value (.skip hskip) budget t place).ok h
  exact ⟨ts, hts.ne_nil, hw⟩

end Source

/-- Whatever stands on a tape, or whatever the node, and whatever the type, the registry and the policy are: reading a
value and skipping one stop. Every turn of their loops leaves tokens behind, every value inside another one is asked
for further on or is the payload of an option, which nests to a finite depth; and every value that is read has
consumed tokens. -/
theorem reading_stops (b : Binder) (t : Ty) :
    (∀ r : TapeReader, b.Stops t r) ∧ (∀ n : Node, b.Stops t (NodeCursor.ofNode n)) ∧
      ∀ (budget : Nat) (place : Place) (v : Value),
        (∀ s s' : TapeReader, Decode.value b.toContext budget t place s = .ok v s' → Ahead s s') ∧
        (∀ s s' : NodeCursor, Decode.value b.toContext budget t place s = .ok v s' → Ahead s s') := by
  refine ⟨fun r => ?_, fun n => ?_, fun budget place v => ⟨fun s s' h => ?_, fun s s' h => ?_⟩⟩
  · exact (TapeReader.tame fun _ => True).stops TapeReader.skip_eq_skipTokens b t fun _ _ => trivial
  · exact NodeCursor.tame.stops NodeCursor.skip_eq_skipTokens b t trivial
  · exact Decode.value_ahead TapeReader.skip_eq_skipTokens h
  · exact Decode.value_ahead NodeCursor.skip_eq_skipTokens h

end Bindery
