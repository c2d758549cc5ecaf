import Bindery.Proofs.Abreast
import Bindery.Proofs.Recording
/-!
# A recorder beside its source

What is read from a recorder is what is read from its source, and if unknown keys are rejected in reading the source
and skipped in reading the recorder, then it is so up to the first member that its record has no place for: there the
source stops, and the recorder goes on alone (`Abreast.following`).
-/

namespace Bindery

open TokenStream (front advance)
open Listener (hear)

variable {σ α : Type}

/-- Errors have one place at most: if the first one is there to add, the second is not. -/
theorem BindError.at?_at? (e : BindError) {place outer : Place} (h : place.isSome = outer.isSome) :
    (e.at? place).at? outer = e.at? place := by
  cases place with
  | none =>
    cases outer with
    | none => unfold at?; split <;> rfl
    | some path => cases h
  | some path => unfold at?; split <;> rfl

theorem Arrival.refusal_at? {v : Arrival σ} {place : Place} (h : v.around.isSome = place.isSome) :
    v.refusal.at? place = v.refusal :=
  BindError.at?_at? _ (Option.isSome_map.trans h)

namespace Recorder

/-- The first member without a place. -/
def unknown? (w : Recorder σ) : Option (Arrival σ) := (arrivals w.log).find? (·.Unknown)

theorem unknown?_hear (w : Recorder σ) (e : Event (Recorder σ)) :
    (hear e w).unknown? = w.unknown?.or ((e.arrival?.map (·.map source)).toList.find? (·.Unknown)) := by
  unfold unknown?
  rw [arrivals_hear, List.find?_append]

/-- The source is where the recorder is, which has not heard of a member without a place if the reading of the source
is strict; or that reading has stopped at the first one. -/
inductive Beside (strict tracked : Bool) (w : Recorder σ) : Side σ → Prop
  | reading (h : strict → w.unknown? = none) : Beside strict tracked w (.reading w.source)
  | stopped {v : Arrival σ} (hstrict : strict) (h : w.unknown? = some v) (hv : v.around.isSome = tracked) :
    Beside strict tracked w (.stopped v.refusal v.source)

namespace Beside

variable {strict tracked : Bool} {w : Recorder σ} {y : Side σ}

theorem advance [TokenStream σ] (h : w.Beside strict tracked y) :
    (advance w).Beside strict tracked (y.step advance) := by
  cases h with
  | reading h => exact .reading (w := advance w) h
  | stopped hstrict h hv => exact .stopped (w := advance w) hstrict h hv

/-- The recorder hears of anything but a member without a place. -/
theorem hear (h : w.Beside strict tracked y) {e : Event (Recorder σ)}
    (he : strict → ∀ v, e.arrival? = some v → ¬ v.Unknown) : (hear e w).Beside strict tracked (y.step id) := by
  cases h with
  | reading h =>
    refine .reading (w := Listener.hear e w) fun hstrict => ?_
    rw [unknown?_hear, h hstrict, Option.none_or]
    cases hv : e.arrival? with
    | none => rfl
    | some v =>
      have hknown : ¬ (v.map source).Unknown := he hstrict v hv
      simp [hknown]
  | stopped hstrict h hv =>
    refine .stopped hstrict ?_ hv
    rw [unknown?_hear, h, Option.some_or]

theorem hear_other (h : w.Beside strict tracked y) {e : Event (Recorder σ)} (he : e.arrival? = none) :
    (Listener.hear e w).Beside strict tracked (y.step id) := by
  refine h.hear fun _ v hv => ?_
  rw [he] at hv
  cases hv

/-- Once the reading of the source has stopped, the recorder may hear of anything. -/
theorem hear_alone {e : Event (Recorder σ)} {e' : BindError} {t : σ} (h : w.Beside strict tracked (.stopped e' t)) :
    (Listener.hear e w).Beside strict tracked (.stopped e' t) := by
  cases h with
  | stopped hstrict h hv =>
    refine .stopped hstrict ?_ hv
    rw [unknown?_hear, h, Option.some_or]

/-- A strict reading stops at a member without a place. -/
theorem refused (h : w.Beside strict tracked (.reading w.source)) (hstrict : strict) {v : Arrival (Recorder σ)}
    (hv : v.Unknown) (htracked : v.around.isSome = tracked) :
    (Listener.hear (.arrival v) w).Beside strict tracked (.stopped v.refusal v.source.source) := by
  have hfirst : w.unknown? = none := by
    cases h with
    | reading h => exact h hstrict
  have hv' : (v.map source).Unknown := hv
  refine .stopped (v := v.map source) hstrict ?_ htracked
  rw [unknown?_hear, hfirst, Option.none_or]
  simp [Event.arrival?, hv']

end Beside

/-- Both readings end alike, or the reading of the source stops at the first member without a place. -/
def Follows (strict tracked : Bool) (r : Reading (Recorder σ) α) (r' : Reading σ α) : Prop :=
  Accords (fun w e t => w.Beside strict tracked (.stopped e t)) (Beside strict tracked)
    (fun e w e' t => e = e' ∧ w.Beside strict tracked (.reading t)) (fun _ => Beside strict tracked) r r'

namespace Follows

variable {strict tracked : Bool} {r : Reading (Recorder σ) α} {r' : Reading σ α}

/-- What is read quietly is what is read from the source. -/
theorem quiet (r : Reading σ α) : Follows strict tracked (Reading.quiet r) r := by
  constructor
  · intro w t h
    cases h with
    | reading h =>
      unfold Reading.quiet
      cases r w.source with
      | ok a s => exact .both (.reading (w := ⟨s, w.log⟩) h)
      | error e s => exact .failed ⟨rfl, .reading (w := ⟨s, w.log⟩) h⟩
  · intro w e t h
    cases h with
    | stopped hstrict h hv =>
      unfold Reading.quiet
      cases r w.source with
      | ok a s => exact .ok (.stopped (w := ⟨s, w.log⟩) hstrict h hv)
      | error e s => exact .error (.stopped (w := ⟨s, w.log⟩) hstrict h hv)

/-- How the reading of the source ends if it is not strict. -/
theorem run (h : Follows false tracked r r') (w : Recorder σ) :
    r'.run w.source = ((r.run w).1, (r.run w).2.source) := by
  have hends := h.both (s := w) (.reading nofun)
  unfold Reading.run
  generalize r w = x at hends ⊢
  generalize r' w.source = x' at hends ⊢
  cases hends with
  | both hq =>
    cases hq
    rfl
  | parted hq =>
    cases hq with
    | stopped hstrict => cases hstrict
  | failed hf =>
    obtain ⟨rfl, hf⟩ := hf
    cases hf
    rfl
  | gone hg =>
    cases hg with
    | stopped hstrict => cases hstrict

/-- How it ends if it is strict. -/
theorem run_strictly (h : Follows true tracked r r') {w : Recorder σ} (hw : w.unknown? = none) :
    match (r.run w).2.unknown? with
    | none => r'.run w.source = ((r.run w).1, (r.run w).2.source)
    | some v => r'.run w.source = (.error v.refusal, v.source) ∧ v.around.isSome = tracked := by
  have hends := h.both (s := w) (.reading fun _ => hw)
  unfold Reading.run
  generalize r w = x at hends ⊢
  generalize r' w.source = x' at hends ⊢
  cases hends with
  | both hq =>
    cases hq with
    | reading hnone =>
      simp only [hnone rfl]
  | parted hq =>
    cases hq with
    | stopped _ hv htracked =>
      simp only [hv]
      exact ⟨trivial, htracked⟩
  | failed hf =>
    obtain ⟨rfl, hf⟩ := hf
    cases hf with
    | reading hnone =>
      simp only [hnone rfl]
  | gone hg =>
    cases hg with
    | stopped _ hv htracked =>
      simp only [hv]
      exact ⟨trivial, htracked⟩

end Follows
end Recorder

/-- A recorder beside its source. -/
def Abreast.following (σ : Type) [TokenSource σ] (strict tracked : Bool) : Abreast (Recorder σ) σ where
  Pos := Unit
  Part _ _ _ _ := True
  Placed _ place place' := place' = place ∧ place.isSome = tracked
  Bounds _ n m := n = m
  On phase _ w y := phase.Level ∧ w.Beside strict tracked y
  Fails _ _ e w e' t := e = e' ∧ w.Beside strict tracked (.reading t)
  Gone w e t := w.Beside strict tracked (.stopped e t)
  placed_part := by
    rintro _ _ _ _ place _ - ⟨rfl, h⟩
    exact ⟨rfl, Option.isSome_map.trans h⟩
  bounds_zero := by
    rintro _ n m rfl
    rfl
  bounds_part := by
    rintro _ _ _ _ n m - hnm
    exact Nat.succ.inj hnm
  inside_zero := by
    rintro _ _ n m _ _ _ ⟨rfl, -⟩
    rfl
  front_before := by
    rintro _ w t ⟨-, h⟩
    cases h
    rfl
  front_inside := by
    rintro _ _ _ _ _ w t ⟨-, h⟩
    cases h
    rfl
  scalar_step h _ _ := ⟨trivial, h.2.advance⟩
  enter hnm h _ := ⟨Nat.succ.inj hnm, h.2.advance⟩
  item _ h _ := ⟨(), trivial, ⟨trivial, h.2⟩, fun _ _ h' => ⟨Nat.succ.inj h.1, h'.2.hear_other rfl⟩⟩
  member _ h _ := ⟨(), trivial, ⟨trivial, h.2.advance⟩, fun _ _ h' => ⟨Nat.succ.inj h.1, h'.2.hear_other rfl⟩⟩
  leave h _ := ⟨trivial, h.2.advance⟩
  skip_part _ := (Recorder.Follows.quiet Reading.skip).mono (fun _ _ h => h.2) (fun _ _ _ _ h => h)
    fun _ _ _ h => ⟨trivial, h⟩
  hear_deed _ h := ⟨h.1, h.2.hear_other rfl⟩
  hear_part _ _ _ _ h := ⟨h.1, h.2.hear_other rfl⟩
  hear_payload _ _ h := ⟨h.1, h.2.hear_other rfl⟩
  hear_exhausted _ h := ⟨h.1, h.2.hear_other rfl⟩
  hear_spent h := ⟨h.1, h.2.hear_other rfl⟩
  fails_before _ h := ⟨rfl, h.2⟩
  fails_name _ h _ _ := ⟨rfl, h.2⟩
  fails_leave _ h _ _ := ⟨rfl, h.2⟩
  fails_variant _ h _ := ⟨rfl, h.2.advance⟩
  fails_plain _ h := ⟨rfl, h.2⟩
  fails_at := by
    rintro _ place _ e w _ t ⟨rfl, -⟩ ⟨rfl, h⟩
    exact ⟨rfl, h⟩
  fails_spent _ h := h
  fails_part _ h := h
  gone h := h.2
  gone_at := by
    rintro _ place _ w e t ⟨rfl, hplace⟩ h
    cases h with
    | stopped hstrict h hv =>
      rw [Arrival.refusal_at? (hv.trans hplace.symm)]
      exact .stopped hstrict h hv
  stopped_at := by
    rintro phase _ place _ w e t ⟨rfl, hplace⟩ ⟨hlevel, h⟩
    cases h with
    | stopped hstrict h hv =>
      rw [Arrival.refusal_at? (hv.trans hplace.symm)]
      exact ⟨hlevel, .stopped hstrict h hv⟩

namespace Abreast

variable [TokenSource σ] {strict tracked : Bool}

/-- Nothing is asked of errors. -/
theorem following_anywhere (e : BindError) : (following σ strict tracked).Anywhere e := fun _ _ _ _ h => ⟨rfl, h.2⟩

/-- What the recorder and its source do with unknown keys. -/
def Policies (strict : Bool) (g g' : Config) : Prop :=
  if strict then g.unknownKeys = .skip ∧ g'.unknownKeys = .reject else g'.unknownKeys = g.unknownKeys

variable {c : Context} {g g' : Config} {r : Record} {creator : Creator} {a : Assembly} {key : String}
  {place place' : Place} {i j : (following σ strict tracked).Pos} {w : Recorder σ} {y : Side σ}

/-- A member that has a place comes. -/
theorem following_arrive (h : (following σ strict tracked).Arriving r key i j place place' w y)
    (hknown : a.route r creator key ≠ .elsewhere ∨ r.hybrid.isSome) :
    (following σ strict tracked).On .before j (hear (.arrival ⟨r, creator, a, key, place, advance w⟩) (advance w))
      ((y.step advance).step id) := by
  refine ⟨trivial, h.before.2.hear ?_⟩
  rintro - _ ⟨⟩ hunknown
  obtain ⟨hhybrid, hroute⟩ := (Arrival.unknown_iff _).1 hunknown
  rcases hknown with hknown | hknown
  · exact hknown hroute
  · rw [← Option.not_isSome, hknown] at hhybrid
    cases hhybrid

/-- A member without a place comes. -/
theorem following_unknown (hu : Policies strict g g')
    (h : (following σ strict tracked).Arriving r key i j place place' w y)
    (hroute : a.route r creator key = .elsewhere) (hhybrid : r.hybrid.isSome = false) :
    Accords (following σ strict tracked).Gone (fun w' y' => w' = advance w ∧ y' = y.step advance)
      ((following σ strict tracked).Fails false i) (fun _ => (following σ strict tracked).On .behind j)
      (do
        Reading.tell (.arrival ⟨r, creator, a, key, place, ← get⟩)
        Decode.unknown { c with config := g } r.name key (place.member r.name key))
      (do
        Reading.tell (.arrival ⟨r, creator, a, key, place', ← get⟩)
        Decode.unknown { c with config := g' } r.name key (place'.member r.name key)) := by
  unfold Policies at hu
  split at hu
  · next hstrict =>
    -- The recorder skips the member, and the reading of the source stops.
    have hskip : Decode.unknown { c with config := g } r.name key (place.member r.name key) =
        (Reading.skip : Reading (Recorder σ) Unit) := by
      simp only [Decode.unknown, hu.1]
    have hreject : Decode.unknown { c with config := g' } r.name key (place'.member r.name key) =
        (Reading.atPlace (place'.member r.name key) (throw (.unknownKey r.name key)) : Reading σ Unit) := by
      simp only [Decode.unknown, hu.2]
    rw [hskip, hreject]
    obtain ⟨hplaces, htracked⟩ := h.placed
    have hunknown : (⟨r, creator, a, key, place, advance w⟩ : Arrival (Recorder σ)).Unknown :=
      (Arrival.unknown_iff _).2 ⟨by simpa using hhybrid, hroute⟩
    have hskipped : Accords (following σ strict tracked).Gone ((following σ strict tracked).On .before j)
        ((following σ strict tracked).Fails false i) (fun _ => (following σ strict tracked).On .behind j)
        Reading.skip Reading.skip := (following σ strict tracked).skip_part h.part
    have hbefore := h.before.2
    constructor
    · rintro _ t ⟨rfl, ht⟩
      rw [← ht] at hbefore
      cases hbefore with
      | reading hlog =>
        rw [hplaces]
        exact (hskipped.alone ⟨trivial, (Recorder.Beside.reading hlog).refused hstrict hunknown htracked⟩).parted
    · rintro _ e t ⟨rfl, ht⟩
      rw [← ht] at hbefore
      exact hskipped.alone ⟨trivial, hbefore.hear_alone⟩
  · next hlenient =>
    refine h.unknown (by exact hu) ⟨trivial, h.before.2.hear fun hstrict => absurd hstrict hlenient⟩ ?_
    rintro w t ⟨-, hbeside⟩
    obtain ⟨rfl, -⟩ := h.placed
    exact ⟨rfl, hbeside⟩

/-- Whatever codecs and constructors do. -/
theorem following_grounds (hu : Policies strict g g') :
    (following σ strict tracked).Grounds c g g' fun _ _ => True where
  typed _ := trivial
  codec_typed _ _ _ _ := trivial
  codec_fails _ _ _ _ _ _ _ _ _ _ _ _ h _ := ⟨rfl, h.2⟩
  null_typed _ _ _ := trivial
  null_fails _ _ _ _ _ h _ _ := ⟨rfl, h.2.advance⟩
  makes _ := ⟨fun _ _ => .of_forall _ following_anywhere, fun _ => trivial⟩
  arrive _ h hknown := following_arrive h hknown
  unknown _ h hroute hhybrid := following_unknown hu h hroute hhybrid
  finish _ h := ⟨h.1, h.2.hear_other rfl⟩

end Abreast

theorem Place.root_isSome (tracking : Bool) : (Place.root tracking).isSome = tracking := by
  cases tracking <;> rfl

/-- A value of a type is read from the root of a document beside its recording. -/
theorem Recorder.Follows.rootWithin [TokenSource σ] {strict : Bool} {c : Context} {g g' : Config}
    (hu : Abreast.Policies strict g g') (htracking : g'.tracking = g.tracking) (budget : Nat) (t : Ty) :
    Follows strict g.tracking (Decode.rootWithin { c with config := g } budget t : Reading (Recorder σ) Value)
      (Decode.rootWithin { c with config := g' } budget t) := by
  have hplaced : (Abreast.following σ strict g.tracking).Placed () (Place.root g.tracking) (Place.root g'.tracking) :=
    ⟨congrArg Place.root htracking, Place.root_isSome _⟩
  refine (Abreast.rootWithin (Abreast.following_grounds hu) rfl hplaced t fun _ _ _ _ _ hf => hf).mono ?_ ?_ ?_
  · exact fun _ _ h => ⟨trivial, h⟩
  · exact fun _ _ _ _ h => h
  · exact fun _ _ _ h => h.2.2

end Bindery
