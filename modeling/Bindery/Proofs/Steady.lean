import Bindery.Proofs.Following
import Bindery.Proofs.Skipping
/-!
# Steady readings

A recorder is read beside its source, each with a bound that exceeds the number of tokens left. Both readings end
alike, and what the recorder hears of is sound: a turn of a loop leaves tokens behind, a value inside another one is
asked for only once tokens of the outer one are consumed or an option has come down to its payload, an assembly is in
order whenever a member comes, containers are closed only where some are open, and no bound is used up
(`Steady.rootWithin`, `Steady.skipByDepth`). The steps ask only that tokens coming off a source leave less of it
(`Tame`).

What a reading fails with is followed on the way: codecs and constructors fail with whatever they fail with
(`Context.Apt`), and all other errors can be put into words.
-/

namespace Bindery

open TokenStream (front advance)
open Listener (hear)
open BindError (IsMismatch isMismatch)

variable {σ α β : Type}

/-! ## Forward -/

section Forward
variable [TokenStream σ]

/-- Tokens come off the source, or none, and leave the other source. -/
def Onward (s s' : σ) : Prop := ∃ ts, Walks s ts s'

/-- At least one token comes off the source. -/
def Ahead (s s' : σ) : Prop := ∃ ts, ts ≠ [] ∧ Walks s ts s'

variable {s s' s'' : σ}

theorem Onward.refl (s : σ) : Onward s s := ⟨[], rfl⟩

theorem Onward.trans (h : Onward s s') (h' : Onward s' s'') : Onward s s'' := by
  obtain ⟨ts, h⟩ := h
  obtain ⟨us, h'⟩ := h'
  exact ⟨ts ++ us, h.trans h'⟩

theorem Onward.ahead (h : Onward s s') (h' : Ahead s' s'') : Ahead s s'' := by
  obtain ⟨ts, h⟩ := h
  obtain ⟨us, hus, h'⟩ := h'
  exact ⟨ts ++ us, by simp [hus], h.trans h'⟩

theorem Ahead.onward (h : Ahead s s') (h' : Onward s' s'') : Ahead s s'' := by
  obtain ⟨ts, hts, h⟩ := h
  obtain ⟨us, h'⟩ := h'
  exact ⟨ts ++ us, by simp [hts], h.trans h'⟩

theorem Ahead.toOnward (h : Ahead s s') : Onward s s' := by
  obtain ⟨ts, -, h⟩ := h
  exact ⟨ts, h⟩

theorem Ahead.trans (h : Ahead s s') (h' : Ahead s' s'') : Ahead s s'' := h.onward h'.toOnward

/-- A token comes off. -/
theorem Ahead.advance {u : Token} (h : front s = .token u) : Ahead s (advance s) := ⟨[u], by simp, h, rfl⟩

/-- A family of sources off which tokens come one by one until there are none, each of a kind that `T` holds of. -/
structure Tame (V : σ → Prop) (T : Token → Prop) : Prop where
  token : ∀ {s t}, V s → front s = .token t → T t
  advance : ∀ {s t}, V s → front s = .token t → V (advance s)
  shorter : ∀ {s t}, V s → front s = .token t → TokenStream.length (TokenStream.advance s) < TokenStream.length s

namespace Tame

variable {V : σ → Prop} {T : Token → Prop}

theorem walks (hV : Tame V T) {ts : List Token} : ∀ {s s' : σ}, V s → Walks s ts s' →
    V s' ∧ (∀ t ∈ ts, T t) ∧ TokenStream.length s' + ts.length ≤ TokenStream.length s := by
  induction ts with
  | nil =>
    intro s s' hs hw
    cases hw
    exact ⟨hs, by simp, Nat.le_refl _⟩
  | cons t ts ih =>
    intro s s' hs ⟨hf, hw⟩
    obtain ⟨hs', hts, hlen⟩ := ih (hV.advance hs hf) hw
    have hlt := hV.shorter hs hf
    refine ⟨hs', List.forall_mem_cons.2 ⟨hV.token hs hf, hts⟩, ?_⟩
    rw [List.length_cons]
    omega

theorem onward (hV : Tame V T) (hs : V s) (h : Onward s s') : V s' := by
  obtain ⟨ts, hw⟩ := h
  exact (hV.walks hs hw).1

theorem ahead (hV : Tame V T) (hs : V s) (h : Ahead s s') :
    V s' ∧ TokenStream.length s' < TokenStream.length s := by
  obtain ⟨ts, hts, hw⟩ := h
  obtain ⟨hs', -, hlen⟩ := hV.walks hs hw
  have := List.length_pos_iff.2 hts
  exact ⟨hs', by omega⟩

end Tame
end Forward

/-! ## Events -/

section Events
variable [TokenStream σ]

/-- Tokens are left behind, or an option comes down to its payload; and no bound is used up. -/
def Event.Progresses : Event σ → Prop
  | turn before after | drop _ _ before after => Ahead before after
  | ask whole start part source => Ahead start source ∨ (source = start ∧ whole = .option part)
  | arrival _ | finish _ _ _ | deed _ => True
  | exhausted => False

omit [TokenStream σ] in
/-- Assemblies are in order, and containers are closed only where some are open. -/
def Event.Safe : Event σ → Prop
  | arrival v => v.assembly.InOrder v.record v.creator
  | finish r creator a => a.InOrder r creator
  | drop kind depth _ _ => kind.closes → 0 < depth
  | turn _ _ | ask _ _ _ _ | exhausted | deed _ => True

/-- What a reading may tell. -/
structure Event.Sound (e : Event σ) : Prop where
  progresses : e.Progresses
  safe : e.Safe

/-- The source of a member is the one behind its name. -/
def Arrival.IsNamed (v : Arrival σ) : Prop := ∃ before, Walks before [.name v.key] v.source

/-- What is told from a source on: sound events, and members in the order in which they stand. -/
structure Trail (s : σ) (log : List (Event σ)) : Prop where
  sound : ∀ e ∈ log, e.Sound
  named : ∀ v ∈ arrivals log, v.IsNamed
  ahead : ∀ v ∈ arrivals log, Ahead s v.source
  order : (arrivals log).Pairwise fun v v' => Ahead v.source v'.source

/-- The recorder began at a source, and all members that it has heard of are behind it. -/
structure Recorder.Heard (s : σ) (w : Recorder σ) : Prop extends Trail s w.log where
  onward : Onward s w.source
  behind : ∀ v ∈ arrivals w.log, Onward v.source w.source

namespace Recorder.Heard

variable {s s' : σ} {w : Recorder σ}

theorem nothing (s : σ) : Heard s { source := s } :=
  ⟨⟨by simp, by simp [arrivals], by simp [arrivals], by simp [arrivals]⟩, .refl s, by simp [arrivals]⟩

/-- The recorder moves on quietly. -/
theorem moves (h : Heard s w) (hon : Onward w.source s') : Heard s ⟨s', w.log⟩ :=
  ⟨h.toTrail, h.onward.trans hon, fun v hv => (h.behind v hv).trans hon⟩

theorem advance (h : Heard s w) {u : Token} (hf : front w = .token u) : Heard s (advance w) :=
  h.moves (Ahead.advance (s := w.source) hf).toOnward

/-- The recorder hears of something other than a member. -/
theorem hear (h : Heard s w) {e : Event (Recorder σ)} (he : (e.map source).Sound) (hother : e.arrival? = none) :
    Heard s (hear e w) := by
  have harrivals : arrivals (Listener.hear e w).log = arrivals w.log := by
    rw [arrivals_hear, hother]
    exact List.append_nil _
  refine ⟨⟨List.forall_mem_append.2 ⟨h.sound, List.forall_mem_singleton.2 he⟩, ?_, ?_, ?_⟩, h.onward, ?_⟩
  · exact harrivals ▸ h.named
  · exact harrivals ▸ h.ahead
  · exact harrivals ▸ h.order
  · exact harrivals ▸ h.behind

/-- The recorder moves over a name and hears of a member. -/
theorem arrive (h : Heard s w) {r : Record} {creator : Creator} {a : Assembly} {key : String} (around : Place)
    (ha : a.InOrder r creator) (hf : front w = .token (.name key)) :
    Heard s (Listener.hear (.arrival ⟨r, creator, a, key, around, TokenStream.advance w⟩) (TokenStream.advance w)) := by
  have hname : Ahead w.source (TokenStream.advance w.source) := .advance hf
  have harrivals : ∀ v, arrivals (Listener.hear (.arrival v) (TokenStream.advance w)).log =
      arrivals w.log ++ [v.map source] := fun v => arrivals_hear _ _
  refine ⟨⟨?_, ?_, ?_, ?_⟩, h.onward.trans hname.toOnward, ?_⟩
  · exact List.forall_mem_append.2 ⟨h.sound, List.forall_mem_singleton.2 ⟨trivial, ha⟩⟩
  · rw [harrivals]
    exact List.forall_mem_append.2 ⟨h.named, List.forall_mem_singleton.2 ⟨w.source, hf, rfl⟩⟩
  · rw [harrivals]
    exact List.forall_mem_append.2 ⟨h.ahead, List.forall_mem_singleton.2 (h.onward.ahead hname)⟩
  · rw [harrivals, List.pairwise_append]
    refine ⟨h.order, List.pairwise_singleton _ _, fun v hv v' hv' => ?_⟩
    rw [List.mem_singleton.1 hv']
    exact (h.behind v hv).ahead hname
  · rw [harrivals]
    exact List.forall_mem_append.2 ⟨fun v hv => (h.behind v hv).trans hname.toOnward,
      List.forall_mem_singleton.2 (.refl _)⟩

end Recorder.Heard
end Events

/-! ## Errors -/

theorem BindError.worded_rootCause (e : BindError) : e.Worded ↔ e.rootCause.Worded := by
  refine forall_congr' fun numerals => ?_
  induction e with
  | located path cause ih => simpa [message?, rootCause] using ih
  | tokenMismatch | typeError | enumMismatch | unsupportedType | unknownKey | invalidValue | malformed => rfl

theorem BindError.IsMismatch.worded {e : BindError} (h : e.IsMismatch) : e.Worded := by
  obtain ⟨expected, found, h⟩ := h
  rw [e.worded_rootCause, h]
  exact fun _ => rfl

/-- What `E` holds of: whatever can be put into words, and the errors of codecs and constructors. Codecs are given
documents of tokens that `T` holds of. -/
structure Context.Apt (c : Context) (T : Token → Prop) (E : BindError → Prop) : Prop where
  worded : ∀ {e}, BindError.Worded e → E e
  at? : ∀ {e}, E e → ∀ place, E (e.at? place)
  read : ∀ {t codec ts n}, c.registry.codec? t = some codec → (∀ tk ∈ ts, T tk) → Denotes ts n →
    Ends (fun _ => True) E (codec.decode n)
  readNull : ∀ {t codec}, c.registry.codec? t = some codec → Ends (fun _ => True) E codec.decodeNull
  makes : ∀ {name creator}, (c.schema.record name).creator = some creator → creator.Makes (fun _ => True) E

/-! ## Steps -/

/-- A recorder that began at a source and has heard of nothing unsound stands where the other source does. -/
structure Recorder.Steady [TokenStream σ] (V : σ → Prop) (s : σ) (w : Recorder σ) (y : Side σ) : Prop where
  same : y = .reading w.source
  valid : V w.source
  heard : w.Heard s

namespace Recorder.Steady

variable [TokenStream σ] {V : σ → Prop} {T : Token → Prop} {s : σ} {w : Recorder σ} {y : Side σ}

theorem advance (h : w.Steady V s y) (hV : Tame V T) {u : Token} (hf : front w = .token u) :
    (advance w).Steady V s (y.step advance) :=
  ⟨congrArg (Side.step TokenStream.advance) h.same, hV.advance h.valid hf, h.heard.advance hf⟩

theorem hear (h : w.Steady V s y) {e : Event (Recorder σ)} (he : (e.map source).Sound) (hother : e.arrival? = none) :
    (hear e w).Steady V s (y.step id) :=
  ⟨congrArg (Side.step id) h.same, h.valid, h.heard.hear he hother⟩

end Recorder.Steady

/-- A recorder beside its source, with bounds that exceed what is left. -/
def Abreast.steady [TokenSource σ] {c : Context} {V : σ → Prop} {T : Token → Prop} {E : BindError → Prop}
    (hc : c.Apt T E) (hV : Tame V T) (hskip : (Reading.skip : Reading σ Unit) = Reading.skipTokens) (s : σ) :
    Abreast (Recorder σ) σ where
  Pos := σ
  Part i _ _ j := V i ∧ Ahead i j
  Placed _ place place' := place' = place
  Bounds i n m := TokenStream.length i < n ∧ TokenStream.length i < m
  On phase i w y := w.Steady V s y ∧
    match phase with
    | .before => w.source = i
    | .inside _ _ n m =>
      V i ∧ Ahead i w.source ∧ TokenStream.length w.source < n ∧ TokenStream.length w.source < m
    | .behind => Ahead i w.source
  Fails _ _ e w e' t := e' = e ∧ t = w.source ∧ E e ∧ Trail s w.log
  Gone _ _ _ := False
  placed_part := by
    rintro _ _ _ _ _ _ - rfl
    rfl
  bounds_zero := by
    rintro i n m ⟨hn, hm⟩
    omega
  bounds_part := by
    rintro i _ _ j n m ⟨hi, hij⟩ ⟨hn, hm⟩
    have := (hV.ahead hi hij).2
    omega
  inside_zero := by
    rintro _ _ n m i w y ⟨-, -, -, hn, hm⟩
    omega
  front_before := by
    rintro i w t ⟨h, -⟩
    cases h.same
    rfl
  front_inside := by
    rintro _ _ _ _ i w t ⟨h, -⟩
    cases h.same
    rfl
  scalar_step := by
    rintro _ w y u ⟨h, rfl⟩ hf -
    exact ⟨h.advance hV hf, .advance hf⟩
  enter := by
    rintro bracket _ n m w y ⟨hn, hm⟩ ⟨h, rfl⟩ hf
    have hlt : TokenStream.length (advance w.source) < TokenStream.length w.source := hV.shorter h.valid hf
    refine ⟨h.advance hV hf, h.valid, .advance hf, ?_, ?_⟩
    · exact Nat.lt_of_lt_of_le hlt (Nat.le_of_lt_succ hn)
    · exact Nat.lt_of_lt_of_le hlt (Nat.le_of_lt_succ hm)
  item := by
    rintro parts n m i w y _ ⟨h, hi, hiw, hn, hm⟩ -
    refine ⟨w.source, ⟨hi, hiw⟩, ⟨h, rfl⟩, ?_⟩
    rintro w' y' ⟨h', hturn⟩
    have hlt := (hV.ahead h.valid hturn).2
    refine ⟨h'.hear ⟨hturn, trivial⟩ rfl, hi, hiw.trans hturn, ?_, ?_⟩
    · exact Nat.lt_of_lt_of_le hlt (Nat.le_of_lt_succ hn)
    · exact Nat.lt_of_lt_of_le hlt (Nat.le_of_lt_succ hm)
  member := by
    rintro parts n m i w y key _ ⟨h, hi, hiw, hn, hm⟩ hf
    have hname : Ahead w.source (advance w.source) := .advance hf
    refine ⟨advance w.source, ⟨hi, hiw.trans hname⟩, ⟨h.advance hV hf, rfl⟩, ?_⟩
    rintro w' y' ⟨h', hvalue⟩
    have hturn := hname.trans hvalue
    have hlt := (hV.ahead h.valid hturn).2
    refine ⟨h'.hear ⟨hturn, trivial⟩ rfl, hi, hiw.trans hturn, ?_, ?_⟩
    · exact Nat.lt_of_lt_of_le hlt (Nat.le_of_lt_succ hn)
    · exact Nat.lt_of_lt_of_le hlt (Nat.le_of_lt_succ hm)
  leave := by
    rintro bracket parts n m i w y ⟨h, -, hiw, -⟩ hf
    exact ⟨h.advance hV hf, hiw.trans (.advance hf)⟩
  skip_part := by
    intro i _ _ j _
    have hskips := consumes_skip hskip
    constructor
    · rintro w t ⟨h, rfl⟩
      cases h.same
      change Ended _ _ _ (Reading.quiet Reading.skip w) _
      unfold Reading.quiet
      cases hr : (Reading.skip : Reading σ Unit) w.source with
      | ok _ s' =>
        obtain ⟨ts, hw, hts⟩ := hskips.ok hr
        have hahead : Ahead w.source s' := ⟨ts, hts.ne_nil, hw⟩
        exact .both ⟨⟨rfl, hV.onward h.valid hahead.toOnward, h.heard.moves hahead.toOnward⟩, hahead⟩
      | error e s' => exact .failed ⟨rfl, rfl, hc.worded (hskips.error hr).worded, h.heard.toTrail⟩
    · rintro w e t ⟨h, rfl⟩
      cases h.same
  hear_deed := by
    rintro phase i w y d ⟨h, hstands⟩
    exact ⟨h.hear ⟨trivial, trivial⟩ rfl, hstands⟩
  hear_part := by
    rintro _ _ _ _ w₀ y₀ w y whole part ⟨-, hahead⟩ ⟨-, rfl⟩ ⟨h, rfl⟩
    exact ⟨h.hear ⟨.inl hahead, trivial⟩ rfl, rfl⟩
  hear_payload := by
    rintro _ w₀ y₀ w y payload ⟨-, rfl⟩ ⟨h, hsame⟩
    exact ⟨h.hear ⟨.inr ⟨hsame, rfl⟩, trivial⟩ rfl, hsame⟩
  hear_exhausted := by
    rintro i w y ⟨hn, -⟩
    exact absurd hn (Nat.not_lt_zero _)
  hear_spent := by
    rintro bracket parts i w y ⟨-, -, -, hn, -⟩
    exact absurd hn (Nat.not_lt_zero _)
  fails_before := by
    rintro i w t expected ⟨h, -⟩
    cases h.same
    exact ⟨rfl, rfl, hc.worded fun _ => rfl, h.heard.toTrail⟩
  fails_name := by
    rintro parts n m i w t expected ⟨h, -⟩ - -
    cases h.same
    exact ⟨rfl, rfl, hc.worded fun _ => rfl, h.heard.toTrail⟩
  fails_leave := by
    rintro bracket parts n m i w t expected ⟨h, -⟩ - -
    cases h.same
    exact ⟨rfl, rfl, hc.worded fun _ => rfl, h.heard.toTrail⟩
  fails_variant := by
    rintro i w t name enum ⟨h, -⟩ -
    cases h.same
    exact ⟨rfl, rfl, hc.worded fun _ => rfl, h.heard.toTrail⟩
  fails_plain := by
    rintro phase i w t e he ⟨h, -⟩
    cases h.same
    exact ⟨rfl, rfl, hc.worded he.worded, h.heard.toTrail⟩
  fails_at := by
    rintro i _ place e w _ _ rfl ⟨rfl, rfl, he, htrail⟩
    exact ⟨rfl, rfl, hc.at? he place, htrail⟩
  fails_spent _ h := h
  fails_part _ h := h
  gone := by
    rintro phase i w e t ⟨h, -⟩
    cases h.same
  gone_at _ h := h
  stopped_at := by
    rintro phase i place place' w e t - ⟨h, -⟩
    cases h.same

namespace Context.Apt

variable [TokenSource σ] {c : Context} {V : σ → Prop} {T : Token → Prop} {E : BindError → Prop} (hc : c.Apt T E)
  (hV : Tame V T) (hskip : (Reading.skip : Reading σ Unit) = Reading.skipTokens) {s : σ}

theorem anywhere {e : BindError} (he : E e) : (Abreast.steady hc hV hskip s).Anywhere e := by
  rintro phase i w t ⟨h, -⟩
  cases h.same
  exact ⟨rfl, rfl, he, h.heard.toTrail⟩

/-- A member comes. -/
theorem arrive {r : Record} {creator : Creator} {a : Assembly} {key : String} {i j : σ} {place place' : Place}
    {w : Recorder σ} {y : Side σ} (ha : a.InOrder r creator)
    (h : (Abreast.steady hc hV hskip s).Arriving r key i j place place' w y) :
    (Abreast.steady hc hV hskip s).On .before j (hear (.arrival ⟨r, creator, a, key, place, advance w⟩) (advance w))
      ((y.step advance).step id) := by
  obtain ⟨_, _, _, hinside, -⟩ := h.inside
  obtain ⟨hsteady, hj⟩ := h.before
  exact ⟨⟨congrArg (Side.step id) hsteady.same, hsteady.valid, hinside.heard.arrive place ha h.named⟩, hj⟩

theorem grounds : (Abreast.steady hc hV hskip s).Grounds c c.config c.config fun _ _ => True where
  typed _ := trivial
  codec_typed _ _ _ _ := trivial
  codec_fails := by
    rintro t codec hcodec i m place w₀ t₀ n w t' e ⟨h₀, -⟩ hnode hon he
    cases h₀.same
    obtain ⟨ts, hw, hn⟩ := (ReadsSentence.node m place).ok hnode
    have htokens := (hV.walks h₀.valid hw).2.1
    exact anywhere hc hV hskip ((hc.read hcodec htokens hn).failure he) hon
  null_typed _ _ _ := trivial
  null_fails := by
    rintro t codec hcodec i w t' e ⟨h, rfl⟩ hnull he
    have hf := Front.eq_null hnull
    have hbehind : (Abreast.steady hc hV hskip s).On .behind _ (advance w) (.reading (advance t')) :=
      ⟨h.advance hV hf, .advance hf⟩
    exact anywhere hc hV hskip ((hc.readNull hcodec).failure he) hbehind
  makes hcreator := by
    have hmakes := hc.makes hcreator
    refine ⟨fun hf slots => ?_, fun _ => trivial⟩
    exact (hmakes.withArgs hf slots).mono (fun _ h => h) fun _ => anywhere hc hV hskip
  arrive ha h _ := arrive hc hV hskip ha h
  unknown ha h _ _ := by
    refine h.unknown rfl (arrive hc hV hskip ha h) ?_
    rintro w t ⟨hsteady, -⟩
    cases hsteady.same
    cases h.placed
    exact ⟨rfl, rfl, hc.at? (hc.worded fun _ => rfl) _, hsteady.heard.toTrail⟩
  finish ha h := ⟨h.1.hear ⟨trivial, ha⟩ rfl, h.2⟩

end Context.Apt

/-! ## Readings -/

/-- Only tokens can be discarded. -/
theorem Reading.token_of_depthAfter {f : Front} {depth after : Nat} (h : depthAfter f.kind depth = some after) :
    ∃ u, f = .token u := by
  cases f with
  | token u => exact ⟨u, rfl⟩
  | unknown | done => cases depth <;> cases h

/-- Containers are closed only where some are open. -/
theorem Reading.depthAfter_closes {kind : TokenKind} {depth after : Nat} (h : depthAfter kind depth = some after)
    (hcloses : kind.closes) : 0 < depth := by
  cases depth with
  | succ depth => exact Nat.succ_pos depth
  | zero =>
    cases kind with
    | endObject | endArray | endOfStream => cases h
    | startObject | startArray | name | string | number | boolean | null | unknown => cases hcloses

namespace Recorder

variable {V : σ → Prop} {T : Token → Prop} {E : BindError → Prop} {s : σ}

/-- How a reading and its recording fail. -/
abbrev FailsSteadily [TokenStream σ] (E : BindError → Prop) (s : σ) (e : BindError) (w : Recorder σ) (e' : BindError)
    (t : σ) : Prop :=
  e' = e ∧ t = w.source ∧ E e ∧ Trail s w.log

/-- A recording ends as the reading beside it, and what is heard is sound. -/
theorem Steady.run [TokenStream σ] {P : Recorder σ → Side σ → Prop} {Q : α → Recorder σ → Side σ → Prop}
    {r : Reading (Recorder σ) α} {r' : Reading σ α}
    (h : Accords (fun _ _ _ => False) P (FailsSteadily E s) Q r r') (hP : P { source := s } (.reading s))
    (hQ : ∀ a w y, Q a w y → w.Steady V s y) :
    ∃ log, r.run { source := s } = ((r'.run s).1, ⟨(r'.run s).2, log⟩) ∧ Trail s log ∧
      Ends (fun _ => True) E (r'.run s).1 := by
  have hends := h.both hP
  unfold Reading.run
  generalize r { source := s } = x at hends ⊢
  generalize r' s = x' at hends ⊢
  cases hends with
  | both hq =>
    have hsteady := hQ _ _ _ hq
    cases hsteady.same
    exact ⟨_, rfl, hsteady.heard.toTrail, trivial⟩
  | parted hq => cases (hQ _ _ _ hq).same
  | failed hf =>
    obtain ⟨rfl, rfl, he, htrail⟩ := hf
    exact ⟨_, rfl, htrail, he⟩
  | gone hg => exact hg.elim

theorem Steady.nothing [TokenStream σ] (hs : V s) : Steady V s { source := s } (.reading s) :=
  ⟨rfl, hs, .nothing s⟩

section Skip
variable [TokenStream σ]

/-- A token that can be discarded is discarded. -/
theorem Steady.drop (hV : Tame V T) {n m depth after : Nat} {kind : TokenKind}
    (hdepth : Reading.depthAfter kind depth = some after) :
    Accords (fun _ _ _ => False)
      (fun w y => (w.Steady V s y ∧ TokenStream.length w.source < n + 1 ∧ TokenStream.length w.source < m + 1) ∧
        (front w).kind = kind)
      (FailsSteadily IsMismatch s)
      (fun _ w y => w.Steady V s y ∧ TokenStream.length w.source < n ∧ TokenStream.length w.source < m)
      (Reading.drop kind depth) (Reading.drop kind depth) := by
  constructor
  · rintro w t ⟨⟨h, hn, hm⟩, rfl⟩
    cases h.same
    obtain ⟨u, hf⟩ := Reading.token_of_depthAfter hdepth
    have hlt := hV.shorter h.valid hf
    change Ended _ _ _ (.ok () (Listener.hear (.drop (front w).kind depth w (TokenStream.advance w))
      (TokenStream.advance w))) (.ok () (TokenStream.advance w.source))
    refine .both ⟨(h.advance hV hf).hear ⟨.advance hf, Reading.depthAfter_closes hdepth⟩ rfl, ?_, ?_⟩
    · exact Nat.lt_of_lt_of_le hlt (Nat.le_of_lt_succ hn)
    · exact Nat.lt_of_lt_of_le hlt (Nat.le_of_lt_succ hm)
  · rintro w e t ⟨⟨h, -⟩, -⟩
    cases h.same

/-- Skipping leaves a token behind at every step, and closes no container where none is open. -/
theorem Steady.skipByDepth (hV : Tame V T) (n : Nat) : ∀ m depth, Accords (fun _ _ _ => False)
    (fun w y => w.Steady V s y ∧ TokenStream.length w.source < n ∧ TokenStream.length w.source < m)
    (FailsSteadily IsMismatch s) (fun _ w y => w.Steady V s y)
    (Reading.skipByDepth n depth) (Reading.skipByDepth m depth) := by
  induction n with
  | zero => exact fun m depth => .of_each fun w y h => absurd h.2.1 (Nat.not_lt_zero _)
  | succ n ih =>
    intro m depth
    cases m with
    | zero => exact .of_each fun w y h => absurd h.2.2 (Nat.not_lt_zero _)
    | succ m =>
      rw [Reading.skipByDepth_step, Reading.skipByDepth_step]
      refine .peek ?_ fun kind => ?_
      · rintro w t ⟨h, -⟩
        cases h.same
        rfl
      cases hdepth : Reading.depthAfter kind depth with
      | none =>
        refine .peek ?_ fun found => .throw ?_ ?_
        · rintro w t ⟨⟨h, -⟩, -⟩
          cases h.same
          rfl
        · rintro w t ⟨⟨⟨h, -⟩, -⟩, -⟩
          cases h.same
          exact ⟨rfl, rfl, isMismatch _ _, h.heard.toTrail⟩
        · rintro w e t ⟨⟨⟨h, -⟩, -⟩, -⟩
          cases h.same
      | some after =>
        refine (Steady.drop hV hdepth).bind fun _ => ?_
        split
        · exact .pure fun w y h => h.1
        · exact ih m after

end Skip

/-- A value of a type is read from the root of a document with any two bounds that exceed the tokens left. -/
theorem Steady.rootWithin [TokenSource σ] {c : Context} (hc : c.Apt T E) (hV : Tame V T)
    (hskip : (Reading.skip : Reading σ Unit) = Reading.skipTokens) {n m : Nat} (hn : TokenStream.length s < n)
    (hm : TokenStream.length s < m) (hs : V s) (t : Ty) :
    ∃ log, (Decode.rootWithin c n t).run ({ source := s } : Recorder σ) =
        (((Decode.rootWithin c m t).run s).1, ⟨((Decode.rootWithin c m t).run s).2, log⟩) ∧ Trail s log ∧
      Ends (fun _ => True) E ((Decode.rootWithin c m t).run s).1 := by
  have h := Abreast.rootWithin (F := FailsSteadily E s) (hc.grounds hV hskip (s := s)) ⟨hn, hm⟩ rfl t
    fun _ _ _ _ _ hf => hf
  exact Steady.run h ⟨.nothing hs, rfl⟩ fun _ _ _ hv => hv.2.1

end Recorder

end Bindery
