import Bindery.Catalogue.Codecs
import Bindery.Proofs.TrackedReading
import Bindery.Proofs.Writers
/-!
# Tracking places changes nothing but the wrapper

What a value puts down with places and without is the same but for the places, and so is what a writer makes of it.
At the root a place is added if there is none yet, so that a tracked error says exactly once where it arose: this
is all that tracking changes, in reading and in writing (`tracking_wraps`).
-/

namespace Bindery

variable {σ α : Type}

/-! ## Emissions -/

namespace Emission

/-- The same marks, tracked on one side, and the same failure, but for places. -/
structure Tracks (a a₀ : Emission) : Prop where
  marks : List.Forall₂ (fun m m₀ => m.2 = m₀.2 ∧ m.1.isSome ∧ m₀.1 = none) a.marks a₀.marks
  failure : Option.Rel BindError.Wraps a.failure a₀.failure

/-- The first part, wherever it is put, is the second put nowhere. -/
def PartTracks (p p₀ : Place → Emission) : Prop := ∀ path : Path, (p (some path)).Tracks (p₀ none)

namespace Tracks

variable {a a₀ b b₀ : Emission}

theorem nothing : Tracks nothing nothing := ⟨.nil, .none⟩

theorem mark (path : Path) (m : Mark) : Tracks (mark (some path) m) (mark none m) := ⟨.cons ⟨rfl, rfl, rfl⟩ .nil, .none⟩

theorem fail {e : BindError} (h : ¬ e.isLocated) : Tracks (fail e) (fail e) := ⟨.nil, .some (.bare h)⟩

theorem append (ha : a.Tracks a₀) (hb : b.Tracks b₀) : (a ++ b).Tracks (a₀ ++ b₀) := by
  obtain ⟨marks, failure⟩ := a
  obtain ⟨marks₀, failure₀⟩ := a₀
  obtain ⟨hmarks, hfailure⟩ := ha
  cases hfailure with
  | some he => exact ⟨hmarks, .some he⟩
  | none => exact ⟨List.rel_append hmarks hb.marks, hb.failure⟩

theorem atPlace (place : Place) (h : a.Tracks a₀) : (a.atPlace place).Tracks (a₀.atPlace none) := by
  obtain ⟨marks, failure⟩ := a
  obtain ⟨marks₀, failure₀⟩ := a₀
  obtain ⟨hmarks, hfailure⟩ := h
  cases hfailure with
  | some he => exact ⟨hmarks, .some (he.at? place)⟩
  | none => exact ⟨hmarks, .none⟩

theorem separated {s s₀ : Emission} (hs : s.Tracks s₀) {as as₀ : List Emission} (h : List.Forall₂ Tracks as as₀) :
    (separated s as).Tracks (Emission.separated s₀ as₀) := by
  induction h with
  | nil => exact nothing
  | @cons a a₀ as as₀ ha has ih =>
    cases has with
    | nil => exact ha
    | cons => exact ha.append (hs.append ih)

theorem items (path : Path) (owner : String) {parts parts₀ : List (Place → Emission)}
    (h : List.Forall₂ PartTracks parts parts₀) :
    (items (some path) owner parts).Tracks (Emission.items none owner parts₀) := by
  refine separated (mark path _) ?_
  rw [List.forall₂_map_left_iff, List.forall₂_map_right_iff]
  generalize 0 = k
  induction h generalizing k with
  | nil => exact .nil
  | cons hp _ ih => exact .cons ((hp _).atPlace _) (ih _)

theorem members (path : Path) (owner : String) {parts parts₀ : List (String × (Place → Emission))}
    (h : List.Forall₂ (Encode.MemberRel PartTracks) parts parts₀) :
    (members (some path) owner parts).Tracks (Emission.members none owner parts₀) := by
  refine separated (mark path _) ?_
  rw [List.forall₂_map_left_iff, List.forall₂_map_right_iff]
  refine h.imp ?_
  rintro ⟨key, p⟩ ⟨_, p₀⟩ ⟨rfl, hp⟩
  exact (mark path _).append ((hp _).atPlace _)

theorem array (path : Path) (owner : String) {parts parts₀ : List (Place → Emission)}
    (h : List.Forall₂ PartTracks parts parts₀) :
    (array (some path) owner parts).Tracks (Emission.array none owner parts₀) :=
  (mark path _).append ((items path owner h).append (mark path _))

theorem object (path : Path) (owner : String) {parts parts₀ : List (String × (Place → Emission))}
    (h : List.Forall₂ (Encode.MemberRel PartTracks) parts parts₀) :
    (object (some path) owner parts).Tracks (Emission.object none owner parts₀) :=
  (mark path _).append ((members path owner h).append (mark path _))

end Tracks
end Emission

/-! ## Written values -/

namespace Encode

open Emission (Tracks PartTracks)

/-- Nodes are put down with places as without. -/
theorem carries_tracks : Carries PartTracks where
  scalar _ path := .mark path _
  array owner h path := .array path owner h
  object owner h path := .object path owner h

/-- Values are written with places as without. -/
theorem form_tracks {c : Context} (hc : c.Unlocated) (v : Value) :
    PartTracks (form (c.withTracking true) v) (form (c.withTracking false) v) := by
  have hfail {e : BindError} (he : ¬ e.isLocated) : PartTracks (fun _ => .fail e) fun _ => .fail e := fun _ => .fail he
  suffices h : Respects PartTracks (c.withTracking true) (c.withTracking false) from h.form v
  refine { carries_tracks with
    schema := rfl
    codec := ?codec
    foreignField := ?foreignField
    unsupported := fun _ => hfail Bool.false_ne_true }
  case codec =>
    intro v byForm byForm₀ h
    refine carries_tracks.byCodec rfl (fun {codec e} hcodec he => hfail ?_) byForm byForm₀ h
    unfold Codec.encode at he
    split at he
    · exact (hc.write (Context.codec?_of_codecFor? hcodec).1 v).failure he
    · cases he
      exact Bool.false_ne_true
  case foreignField =>
    intro parts parts₀ type h path
    exact (Tracks.mark path _).append ((Tracks.members path _ h).append (.fail Bool.false_ne_true))

end Encode

/-! ## From the root -/

/-- How a tracked run ends beside one without places: in the same state, and either both with the same answer, or
both with an error that says nowhere where it arose, around which tracking has put exactly one place. -/
def WrapsOnce (on off : Except BindError α × σ) : Prop :=
  on.2 = off.2 ∧ ((∃ a, on.1 = .ok a ∧ off.1 = .ok a) ∨
    ∃ path e, ¬ e.isLocated ∧ on.1 = .error (.located path e) ∧ off.1 = .error e)

theorem WrapsOnce.of_wraps {e e₀ : BindError} (h : e.Wraps e₀) (path : Path) (s : σ) :
    WrapsOnce ((.error (e.at? (some path)), s) : Except BindError α × σ) (.error (e₀.at? none), s) := by
  obtain ⟨text, htext⟩ := h.at?_some path
  rw [htext, BindError.at?_none]
  exact ⟨rfl, .inr ⟨text, e₀, h.unlocated, rfl, rfl⟩⟩

/-- A writer that does not say where its refusals arose. -/
def PlainWriter (write : σ → Mark → Except BindError Unit × σ) : Prop :=
  ∀ s m, Ends (fun _ => True) (fun e => ¬ e.isLocated) (write s m).1

theorem plainWriter_record : PlainWriter Tape.record := fun _ _ => trivial

theorem plainWriter_write (numerals : Json.Numerals) : PlainWriter (Json.write numerals) := by
  intro text m
  unfold Json.write
  split
  · trivial
  · next e he =>
    rcases Bool.eq_false_or_eq_true m.isFinite with hm | hm
    · obtain ⟨more, hmore⟩ := Json.spell_finite numerals hm
      rw [hmore] at he
      cases he
    · obtain ⟨x, rfl, hx⟩ := Json.spell_not_finite numerals hm
      rw [hx] at he
      cases he
      exact Bool.false_ne_true

theorem plainWriter_mark : PlainWriter NodeBuilder.mark := by
  have hput : ∀ (b : NodeBuilder) (n : Node), Ends (fun _ => True) (fun e => ¬ e.isLocated) (b.put n).1 := by
    intro b n
    unfold NodeBuilder.put
    split
    · split
      · trivial
      · exact Bool.false_ne_true
    · trivial
    · exact Bool.false_ne_true
    · trivial
  intro b m
  cases m with
  | objectComma | arrayComma => trivial
  | token t =>
    cases t with
    | startObject | startArray => trivial
    | string | number | bool | null => exact hput _ _
    | endObject | endArray =>
      simp only [NodeBuilder.mark, NodeBuilder.token]
      split
      · exact hput _ _
      · exact Bool.false_ne_true
    | name =>
      simp only [NodeBuilder.mark, NodeBuilder.token]
      split
      · trivial
      · exact Bool.false_ne_true

namespace Emission.Tracks

variable {write : σ → Mark → Except BindError Unit × σ} {a a₀ : Emission}

theorem feed (hwrite : PlainWriter write) {ms ms₀ : List (Place × Mark)}
    (h : List.Forall₂ (fun m m₀ => m.2 = m₀.2 ∧ m.1.isSome ∧ m₀.1 = none) ms ms₀) :
    ∀ s : σ, WrapsOnce (Emission.feed write ms s) (Emission.feed write ms₀ s) := by
  induction h with
  | nil => exact fun s => ⟨rfl, .inl ⟨(), rfl, rfl⟩⟩
  | @cons m m₀ ms ms₀ hm _ ih =>
    intro s
    obtain ⟨place, m⟩ := m
    obtain ⟨place₀, m₀⟩ := m₀
    obtain ⟨rfl, hplace, rfl⟩ := hm
    obtain ⟨path, rfl⟩ := Option.isSome_iff_exists.1 hplace
    unfold Emission.feed
    rcases hw : write s m with ⟨e | _, s'⟩
    · have he : ¬ e.isLocated := (hwrite s m).failure (congrArg Prod.fst hw)
      exact .of_wraps (.bare he) path s'
    · exact ih s'

theorem writeTo (h : a.Tracks a₀) (hwrite : PlainWriter write) (path : Path) (s : σ) :
    WrapsOnce ((a.atPlace (some path)).writeTo write s) ((a₀.atPlace none).writeTo write s) := by
  have hfeed := feed hwrite h.marks s
  have hfailure := h.failure
  unfold Emission.writeTo Emission.atPlace
  dsimp only
  generalize Emission.feed write a.marks s = x at hfeed ⊢
  generalize Emission.feed write a₀.marks s = x₀ at hfeed ⊢
  generalize a.failure = f at hfailure ⊢
  generalize a₀.failure = f₀ at hfailure ⊢
  obtain ⟨x, s'⟩ := x
  obtain ⟨x₀, s₀⟩ := x₀
  obtain ⟨rfl, ⟨u, rfl, rfl⟩ | ⟨text, e, he, rfl, rfl⟩⟩ := hfeed
  · cases hfailure with
    | none => exact ⟨rfl, .inl ⟨u, rfl, rfl⟩⟩
    | some hwraps => exact .of_wraps hwraps path s'
  · exact ⟨rfl, .inr ⟨text, e, he, rfl, rfl⟩⟩

end Emission.Tracks

/-- A reading from the root, with places and without. -/
theorem Tracks.info {c : Context} (hc : c.Unlocated) [TokenSource σ] [PlainSource σ] (t : Ty) (s : σ) :
    WrapsOnce ((Decode.info (c.withTracking true) t).run s) ((Decode.info (c.withTracking false) t).run s) := by
  -- The root is a level itself, which is where its place is added.
  have hroot : ∀ (tracking : Bool) (place : Place), Place.root tracking = place →
      (Decode.info (c.withTracking tracking) t : Reading σ Value) s =
        Reading.atPlace place (Decode.level (c.withTracking tracking) (TokenStream.length s)
          (Decode.value (c.withTracking tracking) (TokenStream.length s)) place t) s := by
    rintro tracking _ rfl
    rw [Decode.info, Decode.value]
    rfl
  have hlevel := hc.level (TokenStream.length s) (some []) t s
  unfold Reading.run
  rw [hroot true (some []) rfl, hroot false none rfl]
  unfold Reading.atPlace
  generalize Decode.level _ _ _ (some []) t s = x at hlevel ⊢
  generalize Decode.level _ _ _ none t s = x₀ at hlevel ⊢
  cases hlevel with
  | ok v s' => exact ⟨rfl, .inl ⟨v, rfl, rfl⟩⟩
  | error hwraps s' => exact .of_wraps hwraps [] s'

/-- Where no codec and no constructor says where its errors arose, tracking places changes nothing but the error. From
any source any type is read from the root with places as without, and any value is written to any writer: the
answer is the same, and so is what is left of the source or what the writer has written. If one run fails so does
the other, the error without places says nowhere where it arose, and tracking puts exactly one place around it.
The check that what was read is of the type, which comes last, adds no place of its own. -/
theorem tracking_wraps (c : Context) (h : c.Unlocated) :
    (∀ (σ : Type) [TokenSource σ] [PlainSource σ] (t : Ty),
      (∀ s : σ, WrapsOnce ((Decode.info (c.withTracking true) t).run s)
        ((Decode.info (c.withTracking false) t).run s)) ∧
      Tracks (Decode.root (c.withTracking true) t : Reading σ Value) (Decode.root (c.withTracking false) t)) ∧
    ∀ (σ : Type) (write : σ → Mark → Except BindError Unit × σ), PlainWriter write → ∀ (v : Value) (s : σ),
      WrapsOnce ((Encode.root (c.withTracking true) v).writeTo write s)
        ((Encode.root (c.withTracking false) v).writeTo write s) := by
  constructor
  · intro σ _ _ t
    constructor
    · exact Tracks.info h t
    · rw [Decode.root_eq, Decode.root_eq]
      have hcheck := Value.ofType_ends unlocated_of_isPlain t
      exact Tracks.bind (fun s => h.value _ t (some []) s) fun v => Tracks.lift (hcheck v)
  · intro σ write hwrite v s
    exact (Encode.form_tracks h v []).writeTo hwrite [] s

/-- The second point of a list has a text for a coordinate, and the second of two numbers is infinite. -/
theorem tracking_wraps_nested :
    let Γ : Schema := { records := [Catalogue.point] }
    let c : Context := { schema := Γ, registry := Registry.registerCodec Γ {} Catalogue.u8Hex }
    let s : TapeReader := TapeReader.ofTape (Tape.ofTokens [.startArray, .startObject, .endObject, .startObject,
      .name "x", .string "1", .endObject, .endArray])
    let v : Value := .seq .vec (.scalar .f64) [.f64 ⟨0⟩, .f64 ⟨0x7FF0000000000000⟩]
    let write := Json.write Json.standard.toNumerals
    let on := (Decode.info (c.withTracking true) (Catalogue.vec (Catalogue.recordTy "Point"))).run s
    let off := (Decode.info (c.withTracking false) (Catalogue.vec (Catalogue.recordTy "Point"))).run s
    c.Unlocated ∧ WrapsOnce on off ∧ off.1 = .error (.tokenMismatch "NUMBER" .string) ∧
      WrapsOnce ((Encode.root (c.withTracking true) v).writeTo write "")
        ((Encode.root (c.withTracking false) v).writeTo write "") := by
  intro Γ c s v write on off
  have hcodec : ∀ {t codec}, c.registry.codec? t = some codec → codec = Catalogue.u8Hex := by
    intro t codec ht
    change (TypeMap.insert {} Catalogue.u8Hex.type Catalogue.u8Hex).find? t = some codec at ht
    rw [TypeMap.find?_insert] at ht
    split at ht
    · cases ht
      rfl
    · cases ht
  have hread : ∀ n, Ends (fun _ => True) (fun e => ¬ e.isLocated) (Catalogue.u8Hex.read n) := by
    intro n
    simp only [Catalogue.u8Hex]
    split
    · split
      · trivial
      · exact Bool.false_ne_true
    · exact Bool.false_ne_true
  have hwrite : ∀ v, Ends (fun _ => True) (fun e => ¬ e.isLocated) (Catalogue.u8Hex.write v) := by
    intro v
    cases v <;> first | trivial | exact Bool.false_ne_true
  have hc : c.Unlocated := by
    constructor
    · intro t codec ht
      rw [hcodec ht]
      exact hread
    · intro t codec ht
      rw [hcodec ht]
      exact hread .null
    · intro t codec ht
      rw [hcodec ht]
      exact hwrite
    · intro name creator hcreator
      have hrecord := List.mem_singleton.1 (Schema.declared hcreator).1
      rw [hrecord] at hcreator
      cases hcreator
      constructor
      · rintro _ ⟨⟩ slots
        have hslot := fun i => ArgSlots.takeOr_ends unlocated_of_isPlain slots i Catalogue.i32 (.int .i32 0) rfl
        exact (hslot 0).bind fun _ _ => (hslot 1).bind fun _ _ => trivial
      · exact fun _ => trivial
  have hoff : off.1 = .error (.tokenMismatch "NUMBER" .string) := by rfl
  obtain ⟨hread, hwrite⟩ := tracking_wraps c hc
  exact ⟨hc, (hread TapeReader _).1 s, hoff, hwrite String write (plainWriter_write _) v ""⟩

end Bindery
