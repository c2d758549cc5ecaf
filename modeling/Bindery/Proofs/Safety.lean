import Bindery.Catalogue.Model
import Bindery.Proofs.Hashing
import Bindery.Proofs.History
import Bindery.Proofs.Offsets
import Bindery.Proofs.Progress
import Bindery.Proofs.Writers
/-!
# Readings never crash

Reading a value takes steps that would crash if their operands were wrong: it goes to positions that tables of keys
and of hashes give, counts arguments down, closes containers, cuts texts at offsets, multiplies words, and puts nodes
into words. The operands are right, whatever stands on the tape, as long as its numbers are finite: what a recorder
hears of is safe (`Recorder.Steady.rootWithin`), positions come from tables made with what they are positions in
(`Creator.argIndex?_goesBy`, `HashedEntries.Indexed`), texts are cut between characters (`Duration.scan_eq`), and the
standard codecs quote nothing but numbers and strings (`Registry.standardCodecs_worded`).
-/

namespace Bindery

/-! ## Errors in words -/

theorem Number.json?_isSome (numerals : Json.Numerals) {x : Number} (h : (Mark.token (.number x)).isFinite) :
    (x.json? numerals).isSome := by
  cases x with
  | posInt v | negInt v => rfl
  | float x =>
    have hx : x.isFinite = true := h
    simp [json?, hx]

/-- A codec reads nodes of finite numbers, or says in words why not. -/
def Codec.Worded (codec : Codec) : Prop :=
  ∀ n, (∀ x, n = .number x → (Mark.token (.number x)).isFinite) →
    Ends (fun _ => True) BindError.Worded (codec.decode n)

theorem FilePath.codec_worded : FilePath.codec.Worded := by
  intro n _
  cases n with
  | string text => trivial
  | _ => exact fun _ => rfl

theorem Address.codec_worded : Address.codec.Worded := by
  intro n _
  cases n with
  | string text =>
    simp only [Codec.decode, codec]
    cases parse? text with
    | none => exact fun _ => rfl
    | some a => trivial
  | _ => exact fun _ => rfl

theorem Duration.codec_worded : Duration.codec.Worded := by
  intro n _
  cases n with
  | string text =>
    simp only [Codec.decode, codec]
    cases parse? text with
    | none => exact fun _ => rfl
    | some d => trivial
  | _ => exact fun _ => rfl

/-- An instant that cannot be read is quoted, be it a number or a text. -/
theorem Instant.codec_worded : Instant.codec.Worded := by
  intro n hn
  cases n with
  | number x =>
    have hquote : ∀ numerals, ((Node.number x).display? numerals).isSome :=
      fun numerals => Number.json?_isSome numerals (hn x rfl)
    simp only [Codec.decode, codec]
    cases x.narrow .i64 with
    | none =>
      intro numerals
      change (Option.map _ (Option.map _ ((Node.number x).display? numerals))).isSome = true
      rw [Option.isSome_map, Option.isSome_map]
      exact hquote numerals
    | some m =>
      simp only [ok_bind]
      cases ofMillis? m with
      | none => exact fun _ => rfl
      | some t => trivial
  | string text =>
    simp only [Codec.decode, codec]
    cases decimal? text with
    | none => exact fun _ => rfl
    | some m =>
      simp only [ok_bind]
      cases ofMillis? m with
      | none => exact fun _ => rfl
      | some t => trivial
  | _ => exact fun _ => rfl

theorem Registry.standardCodecs_worded : ∀ codec ∈ standardCodecs, codec.Worded := by
  simp only [standardCodecs, List.mem_cons, List.not_mem_nil, or_false, forall_eq_or_imp, forall_eq]
  exact ⟨FilePath.codec_worded, Address.codec_worded, Duration.codec_worded, Instant.codec_worded⟩

theorem Registry.standardCodecs_null :
    ∀ codec ∈ standardCodecs, Ends (fun _ => True) BindError.Worded codec.decodeNull := by
  simp only [standardCodecs, List.mem_cons, List.not_mem_nil, or_false, forall_eq_or_imp, forall_eq]
  exact ⟨fun _ => rfl, fun _ => rfl, fun _ => rfl, fun _ => rfl⟩

/-- A context of standard codecs and of constructors that fail in words. -/
theorem Context.apt_worded {c : Context}
    (hcodecs : ∀ {t codec}, c.registry.codec? t = some codec → codec ∈ Registry.standardCodecs)
    (hmakes : ∀ {name creator}, (c.schema.record name).creator = some creator →
      creator.Makes (fun _ => True) BindError.Worded) :
    c.Apt (fun t => (Mark.token t).isFinite) BindError.Worded where
  worded h := h
  at? {e} he place := by
    rw [BindError.worded_rootCause, BindError.rootCause_at?, ← BindError.worded_rootCause]
    exact he
  read {t codec ts n} hcodec hts hn := by
    apply Registry.standardCodecs_worded codec (hcodecs hcodec)
    rintro x rfl
    cases hn
    exact hts _ (List.mem_singleton_self _)
  readNull hcodec := Registry.standardCodecs_null _ (hcodecs hcodec)
  makes := hmakes

/-! ## Registrations -/

/-- Registrations of types, and of standard codecs, leave a registry of standard codecs. -/
theorem History.codec?_standard {h : History}
    (hcalls : ∀ codec, .codec codec ∈ h.calls → codec ∈ Registry.standardCodecs)
    {Γ : Schema} {config : Config} {t : Ty} {codec : Codec}
    (hcodec : (h.binder Γ config).registry.codec? t = some codec) : codec ∈ Registry.standardCodecs := by
  rw [codec?_binder] at hcodec
  have hmem := List.mem_reverse.1 (List.mem_of_find?_eq_some hcodec)
  obtain ⟨call, hcall, hsome⟩ := List.mem_filterMap.1 hmem
  cases call with
  | type u | record u => cases hsome
  | codec c =>
    cases hsome
    rcases List.mem_append.1 hcall with hstart | hcall
    · cases hs : h.start with
      | empty =>
        rw [hs] at hstart
        cases hstart
      | standard =>
        rw [hs] at hstart
        simpa [Start.calls] using hstart
    · exact hcalls _ hcall

/-! ## Readings -/

section Source
variable {σ : Type} [TokenSource σ] {V : σ → Prop} {T : Token → Prop} {E : BindError → Prop} (hV : Tame V T) {s : σ}
  (hs : V s)
include hV hs

/-- A skip closes containers only where some are open. -/
theorem Tame.skip_safe (hskip : (Reading.skip : Reading σ Unit) = Reading.skipTokens) :
    ∃ log, (Reading.skipByDepth (TokenStream.length s + 1) 0).run ({ source := s } : Recorder σ) =
        (((Reading.skip : Reading σ Unit).run s).1, ⟨((Reading.skip : Reading σ Unit).run s).2, log⟩) ∧
      ∀ e ∈ log, e.Safe := by
  have hlt := Nat.lt_succ_self (TokenStream.length s)
  have hstart : Recorder.Steady V s { source := s } (.reading s) := .nothing hs
  obtain ⟨log, hrun, htrail, -⟩ := Recorder.Steady.run
    (Recorder.Steady.skipByDepth hV (TokenStream.length s + 1) (TokenStream.length s + 1) 0) ⟨hstart, hlt, hlt⟩
    fun _ _ _ h => h
  refine ⟨log, ?_, fun e he => (htrail.sound e he).safe⟩
  rw [hskip]
  exact hrun

end Source

/-- What reading a value of a type, which is registered first, does from some place of a tape on. -/
structure Binder.Safe (b : Binder) (t : Ty) (r : TapeReader) : Prop where
  /-- There is a value, or an error in words. -/
  ends : Ends (fun _ => True) BindError.Worded (b.decode t r).1
  /-- What is recorded is what happens. -/
  recorded : (Decode.rootWithin (b.register t).toContext (TokenStream.length r + 1) t).run
      ({ source := r } : Recorder TapeReader) =
    ((b.decode t r).1, ⟨(b.decode t r).2.1, Decode.events (b.register t).toContext t r⟩)
  /-- Wherever a member comes, each argument has a slot, as many are counted as slots are empty, at least one, and
  fields that wait for the constructor are fields of the record. -/
  events : ∀ e ∈ Decode.events (b.register t).toContext t r, e.Safe

theorem Binder.safe {b : Binder} {t : Ty}
    (hapt : (b.register t).toContext.Apt (fun t => (Mark.token t).isFinite) BindError.Worded)
    {r : TapeReader} (hr : ∀ m, .mark m ∈ r.rest → m.isFinite) : b.Safe t r := by
  have hlt := Nat.lt_succ_self (TokenStream.length r)
  obtain ⟨log, hrun, htrail, hends⟩ := Recorder.Steady.rootWithin hapt (TapeReader.tame _) TapeReader.skip_eq_skipTokens
    hlt hlt (fun tk htk => hr _ htk) t
  have hlog : Decode.events (b.register t).toContext t r = log := congrArg (·.2.log) hrun
  have hdecode : b.decode t r = (((Decode.root (b.register t).toContext t).run r).1,
      ((Decode.root (b.register t).toContext t).run r).2, b.register t) := Binder.decode_eq b t r
  rw [Decode.root_run] at hdecode
  constructor
  · rw [hdecode]
    exact hends
  · rw [hlog, hdecode]
    exact hrun
  · rw [hlog]
    exact fun e he => (htrail.sound e he).safe

/-- Reading never crashes. Whatever is registered with a binder, starting from the standard registry, as long as all
codecs are standard ones and constructors fail in words; whatever the type, and whatever stands on the tape, as long as
its numbers are finite: there is a value, or an error in words, and what happens on the way is safe. Keys stand for
arguments and fields that there are; skipping closes containers only where some are open; whatever the hash function,
objects are built through an index of nothing but their positions; and no text makes the reading of a duration crash. -/
theorem reading_never_crashes (calls : List Registering)
    (hcalls : ∀ codec, .codec codec ∈ calls → codec ∈ Registry.standardCodecs) (Γ : Schema)
    (hmakes : ∀ r ∈ Γ.records, ∀ creator, r.creator = some creator →
      creator.Makes (fun _ => True) BindError.Worded)
    (config : Config) (t : Ty) (r : TapeReader) (hr : ∀ m, .mark m ∈ r.rest → m.isFinite) :
    (History.binder ⟨.standard, calls⟩ Γ config).Safe t r ∧
      (∀ (creator : Creator) (key : String) (i : Nat), creator.argIndex? key = some i → i < creator.arity) ∧
      (∀ (record : Record) (key : String) (i : Nat), record.fieldIndex? key = some i → i < record.fields.length) ∧
      (∀ s : TapeReader, ∃ log,
        (Reading.skipByDepth (TokenStream.length s + 1) 0).run ({ source := s } : Recorder TapeReader) =
          (((Reading.skip : Reading TapeReader Unit).run s).1,
            ⟨((Reading.skip : Reading TapeReader Unit).run s).2, log⟩) ∧
        ∀ e ∈ log, e.Safe) ∧
      (∀ (hash : String → UInt64) (entries : List (String × Node)),
        (HashedEntries.ofList hash entries).toList = Entries.ofList entries ∧
          ∀ p ∈ (HashedEntries.ofList hash entries).index, p.2 < (HashedEntries.ofList hash entries).size) ∧
      ∀ text : String, (Duration.scan text).run = .ok (Duration.parse? text) := by
  refine ⟨?_, fun creator key i h => ?_, fun record key i h => ?_, fun s => ?_, fun hash entries => ?_, fun text => ?_⟩
  · have hcalls' : ∀ codec, .codec codec ∈ calls ++ [.type t] → codec ∈ Registry.standardCodecs := by
      simpa using hcalls
    refine Binder.safe ?_ hr
    have hregister : (History.binder ⟨.standard, calls⟩ Γ config).register t =
        History.binder ⟨.standard, calls ++ [.type t]⟩ Γ config := (Binder.after_concat _ calls (.type t)).symm
    rw [hregister]
    refine Context.apt_worded (fun hcodec => History.codec?_standard hcalls' hcodec) ?_
    intro name creator hcreator
    rw [History.schema_binder] at hcreator
    exact hmakes _ (Schema.declared hcreator).1 creator hcreator
  · obtain ⟨arg, harg, -⟩ := Creator.argIndex?_goesBy h
    exact (List.getElem?_eq_some_iff.1 harg).1
  · obtain ⟨f, hf, -⟩ := Record.fieldIndex?_goesBy h
    exact (List.getElem?_eq_some_iff.1 hf).1
  · exact (TapeReader.tame fun _ => True).skip_safe (fun _ _ => trivial) TapeReader.skip_eq_skipTokens
  · exact ⟨HashedEntries.toList_ofList hash entries, fun p hp => (HashedEntries.ofList_indexed hash entries).lt_size hp⟩
  · rw [Duration.scan_eq]
    rfl

-- There are no words for a number that is not finite.
example : (BindError.invalidValue Instant.path
    (.notEpochMillis (.number (.float ⟨0x7FF8000000000000⟩)))).message? Json.standard.toNumerals = none := by rfl

set_option maxRecDepth 4000 in
/-- A number that is no instant is quoted. -/
theorem reading_never_crashes_times :
    let Γ : Schema := { records := [Catalogue.times] }
    let b := History.binder ⟨.standard, [.record (Catalogue.recordTy "Times")]⟩ Γ {}
    let r := TapeReader.ofTape [.mark (.token .startObject), .mark (.token (.name "at")),
      .mark (.token (.number (.float ⟨0x3FF8000000000000⟩))), .mark (.token .endObject)]
    (match (b.decode (Catalogue.recordTy "Times") r).1 with
      | .error e => e.message? Json.standard.toNumerals
      | .ok _ => none) =
        some "binding failed at $.at: invalid value for `std::time::SystemTime`: `1.5` is not epoch milliseconds" ∧
    b.Safe (Catalogue.recordTy "Times") r := by
  refine ⟨by rfl, (reading_never_crashes [.record (Catalogue.recordTy "Times")] (by simp)
    { records := [Catalogue.times] } ?makes {} (Catalogue.recordTy "Times") _ ?finite).1⟩
  case makes =>
    simp only [List.mem_singleton, forall_eq]
    rintro _ ⟨⟩
    exact ⟨nofun, fun _ => trivial⟩
  case finite =>
    intro m hm
    simp only [TapeReader.ofTape, List.mem_cons, TapeEntry.mark.injEq, List.not_mem_nil, or_false] at hm
    rcases hm with rfl | rfl | rfl | rfl <;> rfl

end Bindery
