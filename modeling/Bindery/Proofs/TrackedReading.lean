import Bindery.Proofs.Abreast
/-!
# Reading with places and without

Values are read twice, with places and without. `Tracks r r₀` says that wherever both readings start they end
alike: with the same answer, or with errors of which the one is at most one place around the other, and the
source is left the same in any case.
-/

namespace Bindery

variable {σ α β : Type}

namespace BindError

/-- The first error is the second, at most one place around it. -/
inductive Wraps : BindError → BindError → Prop
  | bare {e : BindError} (h : ¬ e.isLocated) : Wraps e e
  | located (path : String) {e : BindError} (h : ¬ e.isLocated) : Wraps (.located path e) e

variable {e e₀ : BindError}

theorem Wraps.unlocated (h : e.Wraps e₀) : ¬ e₀.isLocated := by
  cases h with
  | bare h => exact h
  | located _ h => exact h

theorem at?_none (e : BindError) : e.at? none = e := by
  unfold at?
  split <;> rfl

/-- A place is added on one side only, and only if there is none. -/
theorem Wraps.at? (h : e.Wraps e₀) (place : Place) : (e.at? place).Wraps (e₀.at? none) := by
  rw [at?_none]
  cases h with
  | located path h => exact .located path h
  | bare h =>
    cases place with
    | none => exact (at?_none e).symm ▸ .bare h
    | some path =>
      rw [BindError.at?, if_neg h]
      exact .located _ h

/-- Where there is a place to add, the error has one in the end. -/
theorem Wraps.at?_some (h : e.Wraps e₀) (path : Path) : ∃ text, e.at? (some path) = .located text e₀ := by
  cases h with
  | located text h => exact ⟨text, rfl⟩
  | bare h => exact ⟨_, by rw [BindError.at?, if_neg h]⟩

theorem Wraps.mismatch (expected : String) (found : TokenKind) :
    (tokenMismatch expected found).Wraps (tokenMismatch expected found) :=
  .bare Bool.false_ne_true

end BindError

/-! ## Readings -/

/-- The same end, but for places. -/
inductive SameEnd : EStateM.Result BindError σ α → EStateM.Result BindError σ α → Prop
  | ok (a : α) (s : σ) : SameEnd (.ok a s) (.ok a s)
  | error {e e₀ : BindError} (h : e.Wraps e₀) (s : σ) : SameEnd (.error e s) (.error e₀ s)

/-- The first reading is the second, but for places. -/
def Tracks (r r₀ : Reading σ α) : Prop := ∀ s, SameEnd (r s) (r₀ s)

namespace Tracks

theorem pure (a : α) : Tracks (pure a : Reading σ α) (pure a) := fun s => .ok a s

theorem throw {e : BindError} (h : ¬ e.isLocated) : Tracks (throw e : Reading σ α) (throw e) :=
  fun s => .error (.bare h) s

theorem lift {Q : α → Prop} {x : Except BindError α} (h : Ends Q (fun e => ¬ e.isLocated) x) :
    Tracks (Reading.lift x : Reading σ α) (Reading.lift x) := by
  cases x with
  | ok a => exact pure a
  | error e => exact throw h

theorem bind {r r₀ : Reading σ α} {k k₀ : α → Reading σ β} (h : Tracks r r₀) (hk : ∀ a, Tracks (k a) (k₀ a)) :
    Tracks (r >>= k) (r₀ >>= k₀) := by
  intro s
  have hs := h s
  unfold Bind.bind Monad.toBind EStateM.instMonad EStateM.bind
  dsimp only
  revert hs
  generalize r s = x
  generalize r₀ s = x₀
  intro hs
  cases hs with
  | ok a s' => exact hk a s'
  | error he s' => exact .error he s'

end Tracks

/-! ## Contexts and sources -/

theorem unlocated_of_isPlain (e : BindError) (h : e.IsPlain) : ¬ e.isLocated := by
  have hfault := h.fault
  cases e with
  | typeError | invalidValue => exact Bool.false_ne_true
  | tokenMismatch | enumMismatch | unsupportedType | unknownKey | malformed | located => cases hfault

/-- No codec and no constructor says where its errors arose. -/
structure Context.Unlocated (c : Context) : Prop where
  read : ∀ {t codec}, c.registry.codec? t = some codec →
    ∀ n, Ends (fun _ => True) (fun e => ¬ e.isLocated) (codec.read n)
  readNull : ∀ {t codec}, c.registry.codec? t = some codec →
    Ends (fun _ => True) (fun e => ¬ e.isLocated) codec.readNull
  write : ∀ {t codec}, c.registry.codec? t = some codec →
    ∀ v, Ends (fun _ => True) (fun e => ¬ e.isLocated) (codec.write v)
  makes : ∀ {name creator}, (c.schema.record name).creator = some creator →
    creator.Makes (fun _ => True) (fun e => ¬ e.isLocated)

/-- The context with places tracked or not. -/
def Context.withTracking (c : Context) (tracking : Bool) : Context := { c with config := { c.config with tracking } }

/-- A source whose skip, like all other extractors, does not say where its errors arose. -/
class PlainSource (σ : Type) [TokenSource σ] : Prop where
  skip : Tracks (Reading.skip : Reading σ Unit) Reading.skip

theorem Tracks.skipByDepth [TokenStream σ] (budget : Nat) : ∀ depth,
    Tracks (Reading.skipByDepth budget depth : Reading σ Unit) (Reading.skipByDepth budget depth) := by
  have hnoValue : Tracks (Reading.noValue : Reading σ Unit) Reading.noValue :=
    fun s => .error (.mismatch "a value" _) s
  induction budget with
  | zero => exact fun _ => hnoValue
  | succ budget ih =>
    intro depth s
    rw [Reading.skipByDepth_succ]
    split
    · exact .ok _ _
    · exact ih _ _
    · exact hnoValue s

instance : PlainSource TapeReader := ⟨fun s => Tracks.skipByDepth _ 0 s⟩

instance : PlainSource NodeCursor where
  skip := by
    change Tracks NodeCursor.skip NodeCursor.skip
    rw [NodeCursor.skip_eq_skipTokens]
    exact fun s => Tracks.skipByDepth _ 0 s

/-! ## Values -/

/-- A source wherever it stands, places being tracked in the first reading. -/
def Along.tracking (σ : Type) [TokenSource σ] [PlainSource σ] : Along σ where
  Pos := Unit
  Part _ _ _ _ := True
  Placed _ _ place₀ := place₀ = none
  Bounds _ _ := True
  At _ _ _ := True
  Fails _ _ e e₀ := e.Wraps e₀
  placed_part := by
    rintro _ _ _ _ place _ - rfl
    rfl
  bounds_part _ _ := trivial
  scalar_step _ _ _ := trivial
  enter _ _ _ := trivial
  item _ _ _ := ⟨(), trivial, trivial, fun _ _ => trivial⟩
  member _ _ _ := ⟨(), trivial, trivial, fun _ _ => trivial⟩
  leave _ _ := trivial
  skip_ok _ _ _ := trivial
  skip_fails {_ _ _ _ s e s'} _ _ h := by
    have hskip := PlainSource.skip s
    rw [h] at hskip
    cases hskip with
    | error hwraps => exact .bare hwraps.unlocated
  fails_before _ _ := .mismatch _ _
  fails_name _ _ _ _ := .mismatch _ _
  fails_leave _ _ _ _ := .mismatch _ _
  fails_variant _ _ _ := .bare Bool.false_ne_true
  fails_plain he := .bare (unlocated_of_isPlain _ he)
  fails_at := by
    rintro _ place _ e e₀ rfl h
    exact h.at? place
  fails_spent _ h := h
  fails_part _ h := h

/-- Readings that are in accord with places and without. -/
theorem Along.tracks [TokenSource σ] [PlainSource σ] {p : α → Prop} {placed : Bool} {r r₀ : Reading σ α}
    (h : (Along.tracking σ).abreast.Whole placed () p r r₀) : Tracks r r₀ := by
  intro s
  have hends := h.both (s := s) (t := s) ⟨rfl, trivial, trivial⟩
  generalize r s = x at hends ⊢
  generalize r₀ s = x₀ at hends ⊢
  cases hends with
  | both hq =>
    obtain ⟨-, hreading, -⟩ := hq
    cases hreading
    exact .ok _ _
  | parted hq =>
    obtain ⟨-, hreading, -⟩ := hq
    cases hreading
  | failed hf =>
    obtain ⟨rfl, hwraps⟩ := hf
    exact .error hwraps _
  | gone hg => exact hg.elim

namespace Context.Unlocated

variable [TokenSource σ] [PlainSource σ] {c : Context} (hc : c.Unlocated)
include hc

theorem grounds : (Along.tracking σ).abreast.Grounds c (c.withTracking true).config (c.withTracking false).config
    fun _ _ => True :=
  (Along.tracking σ).grounds rfl (fun _ => trivial)
    (fun hcodec n => (hc.read hcodec n).mono (fun _ h => h) fun _ he _ _ _ _ _ _ _ _ => .bare he)
    (fun hcodec => (hc.readNull hcodec).mono (fun _ h => h) fun _ he _ _ _ _ => .bare he)
    (fun hcreator => ⟨fun hf slots => ((hc.makes hcreator).withArgs hf slots).mono (fun _ h => h)
      fun _ he _ => .bare he, fun _ => trivial⟩)
    (by
      rintro _ owner key _ _ place _ - - rfl
      exact (BindError.Wraps.bare (e := .unknownKey owner key) Bool.false_ne_true).at? (place.member owner key))

theorem value (budget : Nat) (t : Ty) (place : Place) :
    Tracks (Decode.value (c.withTracking true) budget t place : Reading σ Value)
      (Decode.value (c.withTracking false) budget t none) :=
  Along.tracks (Abreast.value hc.grounds budget ⟨rfl, trivial⟩ rfl t)

theorem level (budget : Nat) (place : Place) (t : Ty) :
    Tracks
      (Decode.level (c.withTracking true) budget (Decode.value (c.withTracking true) budget) place t : Reading σ Value)
      (Decode.level (c.withTracking false) budget (Decode.value (c.withTracking false) budget) none t) :=
  Along.tracks (Abreast.level hc.grounds ⟨rfl, trivial⟩ rfl
    (fun u _ _ _ _ _ _ hplaced => Abreast.value hc.grounds budget ⟨rfl, trivial⟩ hplaced u) t)

end Context.Unlocated

/-- Reads a value of a type from the root of a document, but for the check that it is of the type. -/
def Decode.info [TokenSource σ] (c : Context) (t : Ty) : Reading σ Value := fun s =>
  Decode.value c (TokenStream.length s + 1) t (Place.root c.config.tracking) s

theorem Decode.root_eq [TokenSource σ] (c : Context) (t : Ty) :
    (Decode.root c t : Reading σ Value) = Decode.info c t >>= fun v => Reading.lift (Value.ofType t v) := rfl

end Bindery
