import Bindery.Proofs.Progress
/-!
# Rejecting unknown keys

A reading that rejects unknown keys does what the one does that skips them, up to the first member that its record
has no place for, and there it stops (`Binder.read_strictly`). Members are come to in the order in which their names
stand, at whatever depth (`Tame.successive`); nothing that is captured or skipped has any.
-/

namespace Bindery

/-- The binder with unknown keys skipped or rejected. -/
def Binder.withUnknownKeys (b : Binder) (unknownKeys : UnknownKeys) : Binder :=
  { b with config := { b.config with unknownKeys } }

section Source
variable {σ : Type} [TokenSource σ]

/-- The members of records that reading a value of a type comes to. -/
def Binder.arrivals (b : Binder) (t : Ty) (s : σ) : List (Arrival σ) :=
  Bindery.arrivals (Decode.events b.toContext t s)

/-- The outcome where unknown keys are rejected, by the members that are come to where they are skipped. -/
theorem Binder.read_strictly (b : Binder) (t : Ty) (s : σ) :
    match ((b.withUnknownKeys .skip).arrivals t s).find? (·.Unknown) with
    | none => (b.withUnknownKeys .reject).read t s = (b.withUnknownKeys .skip).read t s
    | some m => (b.withUnknownKeys .reject).read t s = (.error m.refusal, m.source) ∧
        m.around.isSome = b.config.tracking := by
  have hread : ∀ unknownKeys, (b.withUnknownKeys unknownKeys).read t s =
      (Decode.rootWithin { b.toContext with config := { b.config with unknownKeys } } (TokenStream.length s + 1) t).run
        s := fun unknownKeys => Decode.root_run (b.withUnknownKeys unknownKeys).toContext t s
  -- The recorder skips unknown keys, beside a reading that skips them too and beside one that rejects them.
  have hsame : Abreast.Policies false { b.config with unknownKeys := .skip }
    { b.config with unknownKeys := .skip } := rfl
  have hchecks : Abreast.Policies true { b.config with unknownKeys := .skip }
    { b.config with unknownKeys := .reject } := ⟨rfl, rfl⟩
  have hlenient := (Recorder.Follows.rootWithin (c := b.toContext) hsame rfl (TokenStream.length s + 1) t).run
    { source := s }
  have hstrict := (Recorder.Follows.rootWithin (c := b.toContext) hchecks rfl
    (TokenStream.length s + 1) t).run_strictly (w := { source := s }) rfl
  rw [hread, hread]
  refine Eq.mpr ?_ hstrict
  rw [← hlenient]
  rfl

/-- What rejecting unknown keys makes of a reading that skips them and that comes to some members. -/
structure Checked (tracking : Bool) (members : List (Arrival σ)) (lenient strict : Except BindError Value × σ) :
    Prop where
  /-- A value that is read strictly is read leniently, up to the same place. -/
  succeeds : ∀ v s, strict = (.ok v, s) → lenient = (.ok v, s)
  /-- What fails strictly for another reason than an unknown key fails leniently for the same reason. -/
  fails : ∀ e s, strict = (.error e, s) → (∀ type key, e.rootCause ≠ .unknownKey type key) → lenient = (.error e, s)
  /-- What fails only strictly is refused at the first unknown key. -/
  refuses : ∀ v s e s', lenient = (.ok v, s) → strict = (.error e, s') →
    ∃ m, members.find? (·.Unknown) = some m ∧ s' = m.source ∧
      (¬ tracking → e = .unknownKey m.record.name m.key) ∧
      (tracking → ∃ path, e = .located (Path.render (Path.member path m.record.name m.key))
        (.unknownKey m.record.name m.key))

theorem Binder.checked (b : Binder) (t : Ty) (s : σ) :
    Checked b.config.tracking ((b.withUnknownKeys .skip).arrivals t s) ((b.withUnknownKeys .skip).read t s)
      ((b.withUnknownKeys .reject).read t s) := by
  have hread := b.read_strictly t s
  generalize hfind : ((b.withUnknownKeys .skip).arrivals t s).find? (·.Unknown) = first at hread
  cases first with
  | none =>
    have hsame : (b.withUnknownKeys .reject).read t s = (b.withUnknownKeys .skip).read t s := hread
    constructor
    · exact fun v s' h => hsame.symm.trans h
    · exact fun e s' h _ => hsame.symm.trans h
    · intro v s' e s'' hlenient hstrict
      rw [hsame, hlenient] at hstrict
      cases hstrict
  | some m =>
    obtain ⟨hrefused, htracking⟩ := hread
    constructor
    · intro v s' h
      rw [hrefused] at h
      cases h
    · intro e s' h hcause
      rw [hrefused] at h
      cases h
      exact absurd (BindError.rootCause_at? (.unknownKey m.record.name m.key) m.place) (hcause _ _)
    · intro v s' e s'' _ hstrict
      rw [hrefused] at hstrict
      cases hstrict
      refine ⟨m, hfind, rfl, fun hnot => ?_, fun htracked => ?_⟩
      · have hnone : m.around = none := by
          rw [← Option.not_isSome_iff_eq_none, htracking]
          exact hnot
        simp [Arrival.refusal, Arrival.place, hnone, Place.member, BindError.at?]
      · obtain ⟨path, hpath⟩ := Option.isSome_iff_exists.1 (htracking.trans htracked)
        refine ⟨path, ?_⟩
        simp [Arrival.refusal, Arrival.place, hpath, Place.member, BindError.at?, BindError.isLocated]

/-- Members stand one after the other, each source right behind the name. -/
structure Successive (s : σ) (members : List (Arrival σ)) : Prop where
  named : ∀ m ∈ members, m.IsNamed
  ahead : ∀ m ∈ members, Ahead s m.source
  order : members.Pairwise fun m m' => Ahead m.source m'.source

theorem Tame.successive {V : σ → Prop} {T : Token → Prop} (hV : Tame V T)
    (hskip : (Reading.skip : Reading σ Unit) = Reading.skipTokens) (b : Binder) (t : Ty) {s : σ} (hs : V s) :
    Successive s (b.arrivals t s) := by
  have hlt := Nat.lt_succ_self (TokenStream.length s)
  obtain ⟨log, hrun, htrail, -⟩ := Recorder.Steady.rootWithin b.toContext.apt_true hV hskip hlt hlt hs t
  have hlog : b.arrivals t s = Bindery.arrivals log := by
    rw [Binder.arrivals, Decode.events, hrun]
  rw [hlog]
  exact ⟨htrail.named, htrail.ahead, htrail.order⟩

end Source

/-- Whatever the source, the type, the registry and the tracking are: rejecting unknown keys makes of a reading the
same, or a refusal at the first key that its record, which is no hybrid one, has no field for, nor an argument if the
constructor has still to run. On a tape and in a node the first such key is the one that stands first. Decoding is
reading with the type registered first. -/
theorem strict_is_checked (b : Binder) (t : Ty) :
    (∀ {σ : Type} [TokenSource σ] (s : σ),
      Checked b.config.tracking ((b.withUnknownKeys .skip).arrivals t s) ((b.withUnknownKeys .skip).read t s)
        ((b.withUnknownKeys .reject).read t s)) ∧
    (∀ {σ : Type} [TokenSource σ] (s : σ) (unknownKeys : UnknownKeys),
      (b.withUnknownKeys unknownKeys).decode t s =
        ((((b.register t).withUnknownKeys unknownKeys).read t s).1,
          (((b.register t).withUnknownKeys unknownKeys).read t s).2, (b.register t).withUnknownKeys unknownKeys)) ∧
    (∀ r : TapeReader, Successive r ((b.withUnknownKeys .skip).arrivals t r)) ∧
    (∀ n : Node, Successive (NodeCursor.ofNode n) ((b.withUnknownKeys .skip).arrivals t (NodeCursor.ofNode n))) := by
  refine ⟨fun s => b.checked t s, fun s unknownKeys => Binder.decode_eq _ t s, fun r => ?_, fun n => ?_⟩
  · exact (TapeReader.tame fun _ => True).successive TapeReader.skip_eq_skipTokens _ t fun _ _ => trivial
  · exact NodeCursor.tame.successive NodeCursor.skip_eq_skipTokens _ t trivial

end Bindery
